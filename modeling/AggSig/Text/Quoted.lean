/-
  Texts and byte strings as quoted literals.

  The quotes are single, unless the content holds a single quote and no double one.  The backslash,
  tab, line feed and carriage return have escapes of their own.  In a byte string printable ASCII
  stands for itself and every other byte is written by its two hexadecimal digits; in a text every
  character that can be shown stands for itself and any other is written by its code, in two, four or
  eight hexadecimal digits.

  A changeable byte string escapes every single quote, whatever the quotes around it.
-/
import AggSig.Text.Printable
import AggSig.Text.Utf8

namespace AggSig.Quoted

/-- The character `'`. -/
def single : Char := Char.ofNat 39

/-- The character `"`. -/
def double : Char := Char.ofNat 34

/-- The escape character. -/
def backslash : Char := Char.ofNat 92

/-- The escapes that characters have of their own. -/
def escapeOf? (c : Char) : Option String :=
  if c = '\t' then some "\\t"
  else if c = '\n' then some "\\n"
  else if c = '\r' then some "\\r"
  else none

/-! ## Byte strings -/

/-- One byte of a literal, given which characters take a backslash. -/
def escapeByte (marked : List Char) (b : UInt8) : String :=
  let c := Char.ofNat b.toNat
  if c ∈ marked then String.ofList [backslash, c]
  else
    match escapeOf? c with
    | some escaped => escaped
    | none =>
      if 32 ≤ b.toNat ∧ b.toNat < 127 then String.ofList [c] else "\\x" ++ Utf8.hexByte b

/-- The quote to put around content in which quotes of the two kinds occur as given. -/
def quoteFor (hasSingle hasDouble : Bool) : Char :=
  if hasSingle && !hasDouble then double else single

/-- The quote to put around the bytes. -/
def quoteOfBytes (data : Bytes) : Char := quoteFor (data.contains 39) (data.contains 34)

/-- A quoted byte string in which the given characters take a backslash. -/
def wrapBytes (marked : List Char) (data : Bytes) : String :=
  let mark := String.ofList [quoteOfBytes data]
  "b" ++ mark ++ String.join (data.map (escapeByte marked)) ++ mark

/-- The quoted literal of a byte string. -/
def ofBytes (data : Bytes) : String := wrapBytes [quoteOfBytes data, backslash] data

/-- The quoted literal of a changeable byte string. -/
def ofBuffer (data : Bytes) : String := "bytearray(" ++ wrapBytes [single, backslash] data ++ ")"

/-! ## Texts -/

/-- A number in hexadecimal with at least the given number of digits. -/
def hex (width n : Nat) : String :=
  let digits := Nat.toDigits 16 n
  String.ofList (List.replicate (width - digits.length) '0' ++ digits)

/-- A character by its code. -/
def escapeCode (c : Char) : String :=
  if c.toNat < 0x100 then "\\x" ++ hex 2 c.toNat
  else if c.toNat < 0x10000 then "\\u" ++ hex 4 c.toNat
  else "\\U" ++ hex 8 c.toNat

/-- One character inside quotes of the given kind. -/
def escapeChar (quote c : Char) : String :=
  if c = quote ∨ c = backslash then String.ofList [backslash, c]
  else
    match escapeOf? c with
    | some escaped => escaped
    | none => if Printable.isShown c then String.ofList [c] else escapeCode c

/-- The quoted literal of a text. -/
def ofText (cs : List Char) : String :=
  let quote := quoteFor (cs.contains single) (cs.contains double)
  let mark := String.ofList [quote]
  mark ++ String.join (cs.map (escapeChar quote)) ++ mark

example : ofBytes [0x61, 0x27, 0x62] = "b\"a'b\"" := by decide
example : ofBytes [0xc3, 0x5c] = "b'\\xc3\\\\'" := by decide

end AggSig.Quoted
