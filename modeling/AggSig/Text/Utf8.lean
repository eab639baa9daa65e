/-
  UTF-8, and where a byte string stops being it.

  `decode` reads a whole byte string or says where it fails: the position of the first byte of the
  sequence that cannot be read, how many bytes of it were still acceptable, and what is wrong.  Only
  the shortest form of a character is accepted, and no surrogate.

  `encode` is its inverse on text.
-/
import AggSig.Bytes

namespace AggSig.Utf8

/-- Why a sequence cannot be read. -/
inductive Reason
  | start
  | continuation
  | truncated
  deriving DecidableEq

/-- A sequence that cannot be read: where it starts, its first byte, how many of its bytes were
    acceptable or at fault, and why. -/
structure Fault where
  position : Nat
  byte : UInt8
  span : Nat
  reason : Reason
  deriving DecidableEq

/-- The reason in words. -/
def Reason.message : Reason → String
  | .start => "invalid start byte"
  | .continuation => "invalid continuation byte"
  | .truncated => "unexpected end of data"

/-- A byte as two lower-case hexadecimal digits. -/
def hexByte (b : UInt8) : String :=
  String.ofList [Nat.digitChar (b.toNat / 16), Nat.digitChar (b.toNat % 16)]

/-- The fault in words. -/
def Fault.message (f : Fault) : String :=
  "'utf-8' codec can't decode " ++
    (if f.span = 1 then "byte 0x" ++ hexByte f.byte ++ " in position " ++ toString f.position
      else "bytes in position " ++ toString f.position ++ "-" ++
        toString (f.position + f.span - 1)) ++
    ": " ++ f.reason.message

/-- The bytes of a text. -/
def encode (cs : List Char) : Bytes := cs.flatMap String.utf8EncodeChar

/-- Whether a byte lies between two bounds. -/
def within (low high b : UInt8) : Bool := low ≤ b && b ≤ high

/-- The bounds of the byte after the first, for a first byte that starts three. -/
def secondOfThree (b : UInt8) : UInt8 × UInt8 :=
  if b = 0xe0 then (0xa0, 0xbf) else if b = 0xed then (0x80, 0x9f) else (0x80, 0xbf)

/-- The bounds of the byte after the first, for a first byte that starts four. -/
def secondOfFour (b : UInt8) : UInt8 × UInt8 :=
  if b = 0xf0 then (0x90, 0xbf) else if b = 0xf4 then (0x80, 0x8f) else (0x80, 0xbf)

/-- The six payload bits of a later byte. -/
def payload (b : UInt8) : Nat := b.toNat % 64

/-- The text that the bytes from a position on spell. -/
def decodeFrom (position : Nat) : Bytes → Except Fault (List Char)
  | [] => .ok []
  | b :: rest =>
    let fail (span : Nat) (reason : Reason) : Except Fault (List Char) :=
      .error ⟨position, b, span, reason⟩
    if b < 0x80 then
      (Char.ofNat b.toNat :: ·) <$> decodeFrom (position + 1) rest
    else if within 0xc2 0xdf b then
      match rest with
      | [] => fail 1 .truncated
      | c :: rest =>
        if within 0x80 0xbf c then
          (Char.ofNat (b.toNat % 32 * 64 + payload c) :: ·) <$> decodeFrom (position + 2) rest
        else fail 1 .continuation
    else if within 0xe0 0xef b then
      match rest with
      | [] => fail 1 .truncated
      | c :: rest =>
        if within (secondOfThree b).1 (secondOfThree b).2 c then
          match rest with
          | [] => fail 2 .truncated
          | d :: rest =>
            if within 0x80 0xbf d then
              (Char.ofNat ((b.toNat % 16 * 64 + payload c) * 64 + payload d) :: ·) <$>
                decodeFrom (position + 3) rest
            else fail 2 .continuation
        else fail 1 .continuation
    else if within 0xf0 0xf4 b then
      match rest with
      | [] => fail 1 .truncated
      | c :: rest =>
        if within (secondOfFour b).1 (secondOfFour b).2 c then
          match rest with
          | [] => fail 2 .truncated
          | d :: rest =>
            if within 0x80 0xbf d then
              match rest with
              | [] => fail 3 .truncated
              | e :: rest =>
                if within 0x80 0xbf e then
                  (Char.ofNat
                      (((b.toNat % 8 * 64 + payload c) * 64 + payload d) * 64 + payload e) :: ·) <$>
                    decodeFrom (position + 4) rest
                else fail 3 .continuation
            else fail 2 .continuation
        else fail 1 .continuation
    else fail 1 .start

/-- The text that a byte string spells. -/
def decode (bs : Bytes) : Except Fault (List Char) := decodeFrom 0 bs

example : decode (encode ['z', 'é', '🚀']) = .ok ['z', 'é', '🚀'] := rfl
example : decode [0xe2, 0x98] = .error ⟨0, 0xe2, 2, .truncated⟩ := rfl

end AggSig.Utf8
