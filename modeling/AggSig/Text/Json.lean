/-
  JSON documents, read as far as a list of integers needs them.

  A document is cut into tokens first and then put together: `tokens` knows the lexical grammar
  (numbers, strings with their escapes, names, white space), `Json.ofTokens?` the nesting.  What comes
  out tells integers and lists apart; everything else that a document may hold is `other`.

  Two limits belong to the format: the digits in front of a number's point are at most 4300, and lists
  or objects that hold something nest at most 200 deep.  Besides the names of the standard, the three
  non-finite numbers are accepted as names.
-/
import AggSig.Text.Positional

namespace AggSig

/-- A document, or a part of one. -/
inductive Json
  | integer (n : Int)
  | list (items : List Json)
  | other

namespace Json

/-- What a text consists of, white space apart. -/
inductive Token
  | integer (n : Int)
  | text
  | plain
  | comma
  | colon
  | openList
  | closeList
  | openObject
  | closeObject
  deriving DecidableEq

/-! ## Tokens -/

/-- The white space that may stand between tokens. -/
def isSpace (c : Char) : Bool := c = ' ' || c = '\t' || c = '\n' || c = '\r'

/-- The most digits that a number may have in front of its point. -/
def digitLimit : Nat := 4300

/-- What follows a prefix, if the text starts with it. -/
def after? : List Char → List Char → Option (List Char)
  | [], cs => some cs
  | _ :: _, [] => none
  | p :: ps, c :: cs => if p = c then after? ps cs else none

/-- The digits at the start of a text, of which there must be one, and the rest. -/
def digits? (cs : List Char) : Option (List Char × List Char) :=
  match cs.span Char.isDigit with
  | ([], _) => none
  | found => some found

/-- Without the exponent at the start of a text; nothing if one is broken off. -/
def skipExponent? : List Char → Option (List Char)
  | 'e' :: cs | 'E' :: cs =>
    let unsigned := match cs with
      | '+' :: rest | '-' :: rest => rest
      | rest => rest
    (digits? unsigned).map Prod.snd
  | cs => some cs

/-- The value of decimal digits. -/
def decimal (ds : List Char) : Nat := (Positional.value? "0123456789".toList ds).getD 0

/-- The number at the start of a text, given whether a minus sign came before it. -/
def number? (negative : Bool) (cs : List Char) : Option (Token × List Char) := do
  let (ds, rest) ← digits? cs
  if ds.length > digitLimit ∨ (ds.length > 1 ∧ ds.head? = some '0') then none
  else
    match rest with
    | '.' :: fraction =>
      let (_, rest) ← digits? fraction
      let rest ← skipExponent? rest
      some (.plain, rest)
    | 'e' :: _ | 'E' :: _ =>
      let rest ← skipExponent? rest
      some (.plain, rest)
    | rest =>
      let n : Int := decimal ds
      some (.integer (if negative then -n else n), rest)

/-- The value of four hexadecimal digits at the start of a text, and the rest. -/
def fourHex? : List Char → Option (Nat × List Char)
  | a :: b :: c :: d :: rest =>
    (Positional.value? "0123456789abcdef".toList [a.toLower, b.toLower, c.toLower, d.toLower]).map
      (·, rest)
  | _ => none

/-- Whether a code is the first half of a surrogate pair. -/
def isHighSurrogate (n : Nat) : Bool := 0xd800 ≤ n && n ≤ 0xdbff

/-- Whether a code is the second half of a surrogate pair. -/
def isLowSurrogate (n : Nat) : Bool := 0xdc00 ≤ n && n ≤ 0xdfff

/-- What follows the escape of a character by its code, in which the halves of a surrogate pair come
    together or not at all. -/
def codeEscape? (cs : List Char) : Option (List Char) := do
  let (code, rest) ← fourHex? cs
  if isLowSurrogate code then none
  else if isHighSurrogate code then
    let rest ← after? ['\\', 'u'] rest
    let (second, rest) ← fourHex? rest
    if isLowSurrogate second then some rest else none
  else some rest

/-- What follows the string whose opening quote has been read.  `fuel` bounds its length. -/
def stringEnd? : Nat → List Char → Option (List Char)
  | 0, _ => none
  | _, [] => none
  | fuel + 1, c :: cs =>
    if c = Char.ofNat 34 then some cs
    else if c = '\\' then
      match cs with
      | [] => none
      | 'u' :: rest => (codeEscape? rest).bind (stringEnd? fuel)
      | e :: rest =>
        if e = Char.ofNat 34 ∨ e ∈ "\\/bfnrt".toList then stringEnd? fuel rest else none
    else if c.toNat < 32 then none
    else stringEnd? fuel cs

/-- The names that stand for a value of their own. -/
def names : List (List Char) :=
  ["true", "false", "null", "NaN", "Infinity", "-Infinity"].map String.toList

/-- The name at the start of a text, and the rest. -/
def name? (cs : List Char) : Option (Token × List Char) :=
  (names.findSome? fun name => after? name cs).map (.plain, ·)

/-- The token at the start of a text that does not start with white space, and the rest. -/
def token? (cs : List Char) : Option (Token × List Char) :=
  match cs with
  | [] => none
  | '[' :: rest => some (.openList, rest)
  | ']' :: rest => some (.closeList, rest)
  | '\x7b' :: rest => some (.openObject, rest)
  | '\x7d' :: rest => some (.closeObject, rest)
  | ',' :: rest => some (.comma, rest)
  | ':' :: rest => some (.colon, rest)
  | '-' :: rest => (number? true rest).or (name? cs)
  | c :: rest =>
    if c.isDigit then number? false cs
    else if c = Char.ofNat 34 then (stringEnd? (rest.length + 1) rest).map (.text, ·)
    else name? cs

/-- The tokens of a text; `fuel` bounds their number. -/
def tokensUpTo : Nat → List Char → Option (List Token)
  | 0, _ => none
  | fuel + 1, cs =>
    match cs.dropWhile isSpace with
    | [] => some []
    | rest => do
      let (token, rest) ← token? rest
      let others ← tokensUpTo fuel rest
      some (token :: others)

/-- The tokens of a text. -/
def tokens? (cs : List Char) : Option (List Token) := tokensUpTo (cs.length + 1) cs

/-! ## Nesting -/

/-- How deep lists and objects that hold something may nest. -/
def nestingLimit : Nat := 200

mutual

/-- The value at the start of a row of tokens, and the rest.  `fuel` bounds the tokens read and
    `depth` the nesting that is still allowed. -/
def value? : (fuel depth : Nat) → List Token → Option (Json × List Token)
  | 0, _, _ => none
  | fuel + 1, depth, tokens =>
    match tokens with
    | .integer n :: rest => some (.integer n, rest)
    | .text :: rest | .plain :: rest => some (.other, rest)
    | .openList :: .closeList :: rest => some (.list [], rest)
    | .openList :: rest =>
      match depth with
      | 0 => none
      | depth + 1 => (items? fuel depth rest).map fun (items, rest) => (.list items, rest)
    | .openObject :: .closeObject :: rest => some (.other, rest)
    | .openObject :: rest =>
      match depth with
      | 0 => none
      | depth + 1 => (members? fuel depth rest).map (.other, ·)
    | _ => none

/-- The items of a list up to its closing bracket, and what follows. -/
def items? : (fuel depth : Nat) → List Token → Option (List Json × List Token)
  | 0, _, _ => none
  | fuel + 1, depth, tokens => do
    let (item, rest) ← value? fuel depth tokens
    match rest with
    | .closeList :: rest => some ([item], rest)
    | .comma :: rest =>
      let (items, rest) ← items? fuel depth rest
      some (item :: items, rest)
    | _ => none

/-- What follows the members of an object. -/
def members? : (fuel depth : Nat) → List Token → Option (List Token)
  | 0, _, _ => none
  | fuel + 1, depth, tokens =>
    match tokens with
    | .text :: .colon :: rest => do
      let (_, rest) ← value? fuel depth rest
      match rest with
      | .closeObject :: rest => some rest
      | .comma :: rest => members? fuel depth rest
      | _ => none
    | _ => none

end

/-- The document that a row of tokens makes up. -/
def ofTokens? (tokens : List Token) : Option Json :=
  match value? (2 * tokens.length + 1) nestingLimit tokens with
  | some (document, []) => some document
  | _ => none

/-- The document that a text spells. -/
def parse? (text : List Char) : Option Json := (tokens? text).bind ofTokens?

/-- The text of a list of numbers, without white space. -/
def renderNumbers (ns : List Nat) : String := "[" ++ ",".intercalate (ns.map toString) ++ "]"

example : tokens? "[-0, 1.5e3,\"a\\n\"]".toList =
    some [.openList, .integer 0, .comma, .plain, .comma, .text, .closeList] := by decide
example : tokens? "01".toList = none ∧ tokens? "5.".toList = none := by decide

end Json

end AggSig
