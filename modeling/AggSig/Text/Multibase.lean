/-
  Multibase: byte strings as text whose first character tells how the rest is written.

  An encoding is one of four kinds.  *Identity* keeps the bytes.  A *positional* encoding writes the
  whole byte string as one number, so that leading zero bytes leave no trace; the hexadecimal ones
  fold the case of their digits first.  A *grouped* encoding cuts the bits into digits of five or six
  bits, and the bits left over at the end are dropped unread; some of them allow padding.  The *emoji*
  encoding has one character per byte.

  `decode` reads any of them; `encode58` writes the one that printed values use.
-/
import AggSig.Text.Positional
import AggSig.Text.Quoted
import AggSig.Text.Utf8

namespace AggSig.Multibase

/-- How the characters after the first one are read. -/
inductive Encoding
  | identity
  | positional (alphabet : List Char)
  | hexadecimal (upper : Bool)
  | grouped (alphabet : List Char) (bits : Nat) (padded : Bool)
  | emoji

/-- Why a text cannot be read. -/
inductive Fault
  /-- No encoding starts like the text, which is shown as given. -/
  | unknownEncoding (shown : String)
  /-- What should be read has no text, for a reason given in words. -/
  | unprintable (reason : String)
  | foreignDigit
  | foreignEmoji (c : Char)
  | notText (fault : Utf8.Fault)

/-- The fault in words. -/
def Fault.message : Fault → String
  | .unknownEncoding shown => "Can not determine encoding for " ++ shown
  | .unprintable reason => reason
  | .foreignDigit => "Failed to decode multibase data: substring not found"
  | .foreignEmoji c =>
    "Failed to decode multibase data: Non-base256emoji character: " ++ String.ofList [c]
  | .notText fault => "Failed to decode multibase data: " ++ fault.message

/-! ## Alphabets -/

/-- The ten digits. -/
def decimals : String := "0123456789"

/-- The letters of the lower case. -/
def lowers : String := "abcdefghijklmnopqrstuvwxyz"

/-- The letters of the upper case. -/
def uppers : String := "ABCDEFGHIJKLMNOPQRSTUVWXYZ"

/-- The digits of base 58, upper case before lower case: no zero, no `O`, no `I` and no `l`. -/
def base58 : List Char := "123456789ABCDEFGHJKLMNPQRSTUVWXYZabcdefghijkmnopqrstuvwxyz".toList

/-- The same digits, lower case before upper case. -/
def base58Flickr : List Char :=
  "123456789abcdefghijkmnopqrstuvwxyzABCDEFGHJKLMNPQRSTUVWXYZ".toList

/-- The digits of human-oriented base 32. -/
def base32Human : List Char := "ybndrfg8ejkmcpqxot1uwisza345h769".toList

/-- The digits of base 64. -/
def base64 : List Char := (uppers ++ lowers ++ decimals ++ "+/").toList

/-- The digits of base 64 that need no escaping in addresses. -/
def base64Url : List Char := (uppers ++ lowers ++ decimals ++ "-_").toList

/-- The characters that stand for the bytes from 0 to 255. -/
def emojis : List Char := String.toList <|
  "🚀🪐☄🛰🌌🌑🌒🌓🌔🌕🌖🌗🌘🌍🌏🌎🐉☀💻🖥💾💿😂❤😍🤣😊🙏💕😭😘👍" ++
  "😅👏😁🔥🥰💔💖💙😢🤔😆🙄💪😉☺👌🤗💜😔😎😇🌹🤦🎉💞✌✨🤷😱😌🌸🙌" ++
  "😋💗💚😏💛🙂💓🤩😄😀🖤😃💯🙈👇🎶😒🤭❣😜💋👀😪😑💥🙋😞😩😡🤪👊🥳" ++
  "😥🤤👉💃😳✋😚😝😴🌟😬🙃🍀🌷😻😓⭐✅🥺🌈😈🤘💦✔😣🏃💐☹🎊💘😠☝" ++
  "😕🌺🎂🌻😐🖕💝🙊😹🗣💫💀👑🎵🤞😛🔴😤🌼😫⚽🤙☕🏆🤫👈😮🙆🍻🍃🐶💁" ++
  "😲🌿🧡🎁⚡🌞🎈❌✊👋😰🤨😶🤝🚶💰🍓💢🤟🙁🚨💨🤬✈🎀🍺🤓😙💟🌱😖👶" ++
  "🥴▶➡❓💎💸⬇😨🌚🦋😷🕺⚠🙅😟😵👎🤲🤠🤧📌🔵💅🧐🐾🍒😗🤑🌊🤯🐷☎" ++
  "💧😯💆👆🎤🙇🍑❄🌴💣🐸💌📍🥀🤢👅💡💩👐📸👻🤐🤮🎼🥵🚩🍎🍊👼💍📣🥂"

/-- The encodings with the character that selects each. -/
def encodings : List (Char × Encoding) :=
  [('\x00', .identity),
   ('0', .positional "01".toList),
   ('7', .positional "01234567".toList),
   ('9', .positional decimals.toList),
   ('f', .hexadecimal false),
   ('F', .hexadecimal true),
   ('v', .grouped (decimals ++ "abcdefghijklmnopqrstuv").toList 5 false),
   ('V', .grouped (decimals ++ "ABCDEFGHIJKLMNOPQRSTUV").toList 5 false),
   ('t', .grouped (decimals ++ "abcdefghijklmnopqrstuv").toList 5 true),
   ('T', .grouped (decimals ++ "ABCDEFGHIJKLMNOPQRSTUV").toList 5 true),
   ('b', .grouped (lowers ++ "234567").toList 5 false),
   ('B', .grouped (uppers ++ "234567").toList 5 false),
   ('c', .grouped (lowers ++ "234567").toList 5 true),
   ('C', .grouped (uppers ++ "234567").toList 5 true),
   ('h', .positional base32Human),
   ('k', .positional (decimals ++ lowers).toList),
   ('K', .positional (decimals ++ uppers).toList),
   ('Z', .positional base58Flickr),
   ('z', .positional base58),
   ('m', .grouped base64 6 false),
   ('M', .grouped base64 6 true),
   ('u', .grouped base64Url 6 false),
   ('U', .grouped base64Url 6 true)]

/-- The encoding that a first byte selects. -/
def Encoding.ofCode (code : UInt8) : Option Encoding :=
  (encodings.find? fun (c, _) => c.toNat = code.toNat).map Prod.snd

/-! ## Reading -/

/-- Each byte as the character of that code. -/
def chars (data : Bytes) : List Char := data.map fun b => Char.ofNat b.toNat

/-- The bytes of the number that the digits spell, without leading zero bytes. -/
def readPositional (alphabet digits : List Char) : Except Fault Bytes :=
  match Positional.value? alphabet digits with
  | some n => .ok (Bytes.shortest n)
  | none => .error .foreignDigit

/-- A digit of base 16 in lower case. -/
def foldLower (c : Char) : List Char := [c.toLower]

/-- A digit of base 16 in upper case; the ligature of two `f` becomes two of them. -/
def foldUpper (c : Char) : List Char := if c = 'ﬀ' then ['F', 'F'] else [c.toUpper]

/-- The whole bytes among the bits of the digits; the bits left over at the end are dropped. -/
def readGrouped (alphabet : List Char) (width : Nat) (digits : List Char) : Except Fault Bytes :=
  match Positional.value? alphabet digits with
  | some n =>
    let count := digits.length * width
    .ok (Bytes.ofNat (count / 8) (n / Nat.pow 2 (count % 8)))
  | none => .error .foreignDigit

/-- The bytes that the characters stand for. -/
def readEmojis (cs : List Char) : Except Fault Bytes :=
  cs.mapM fun c =>
    match emojis.idxOf? c with
    | some n => .ok (UInt8.ofNat n)
    | none => .error (.foreignEmoji c)

/-- Without the equals signs at its end. -/
def dropPadding (data : Bytes) : Bytes := (data.reverse.dropWhile (· = 0x3d)).reverse

/-- A byte string as text, where the encoding needs text. -/
def readText (data : Bytes) : Except Fault (List Char) := (Utf8.decode data).mapError .notText

/-- The bytes that the rest of a text stands for. -/
def Encoding.read (data : Bytes) : Encoding → Except Fault Bytes
  | .identity => .ok data
  | .positional alphabet => readPositional alphabet (chars data)
  | .hexadecimal false => do
    let cs ← readText data
    readPositional (decimals ++ "abcdef").toList (cs.flatMap foldLower)
  | .hexadecimal true => do
    let cs ← readText data
    readPositional (decimals ++ "ABCDEF").toList (cs.flatMap foldUpper)
  | .grouped alphabet width padded => do
    readGrouped alphabet width (← readText (if padded then dropPadding data else data))
  | .emoji => do readEmojis (← readText data)

/-- The bytes of the first emoji, which stands for the emoji encoding. -/
def emojiCode : Bytes := Utf8.encode ['🚀']

/-- The bytes that a text, given as its own bytes, stands for.  If no encoding starts like it, the text
    is shown as given. -/
def decodeShown (shown : String) (data : Bytes) : Except Fault Bytes :=
  if data.take 4 = emojiCode then Encoding.emoji.read (data.drop 4)
  else
    match data with
    | [] => .error (.unknownEncoding shown)
    | code :: rest =>
      match Encoding.ofCode code with
      | some encoding => encoding.read rest
      | none => .error (.unknownEncoding shown)

/-- The bytes that a text, given as its own bytes, stands for. -/
def decode (data : Bytes) : Except Fault Bytes := decodeShown (Quoted.ofBytes data) data

/-! ## Writing -/

/-- The base 58 form: a `z`, then the shortest numeral of the number that the bytes spell. -/
def encode58 (data : Bytes) : String :=
  String.ofList ('z' :: Positional.numeral base58 (Bytes.toNat data))

example : encode58 [0, 0] = "z1" := by decide

end AggSig.Multibase
