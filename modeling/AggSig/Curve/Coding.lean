/-
  The two wire encodings of a curve point.

  A coordinate is written as limbs of forty-eight bytes, each an element of the prime field; a
  coordinate of the second group has its imaginary part first.  The three top bits of the first byte
  are flags: *compression* tells the two encodings apart, *infinity* marks the identity, whose other
  bits are zero, and *sort* tells a compressed encoding which of the two ordinates is meant.

  Every decoder checks the width, the flags, the range of each coordinate, the curve equation and the
  subgroup, in that order, and lets the identity pass only where it is allowed.

  A `Coding` holds what differs between the two groups; encoders and decoders are written once.
-/
import AggSig.Curve.Parameters
import AggSig.Failure

namespace AggSig

/-- A coordinate of a point. -/
inductive Coordinate
  | prime (a : Fq)
  | extension (a : Fq2)
  deriving DecidableEq

/-- The coordinate in print: a number, or the two numbers of its parts. -/
def Coordinate.text : Coordinate → String
  | .prime a => toString a.val
  | .extension a => "(" ++ toString a.re.val ++ ", " ++ toString a.im.val ++ ")"

/-- A curve together with what its encodings need of its coordinates. -/
structure Coding (F : Type) where
  side : Side
  /-- The constant term of the curve. -/
  constant : F
  coordinate : F → Coordinate
  ofCoordinate? : Coordinate → Option F
  toLimbs : F → List Fq
  ofLimbs : List Fq → F
  /-- A square root, if there is one. -/
  root? : F → Option F
  /-- Which of two opposite ordinates the sort flag stands for. -/
  isUpperHalf : F → Bool

namespace Coding

/-- The width of a limb in bytes. -/
def limbWidth : Nat := 48

/-- The value of the compression flag in the first limb. -/
def compressionBit : Nat := Nat.pow 2 383

/-- The value of the infinity flag in the first limb. -/
def infinityBit : Nat := Nat.pow 2 382

/-- The value of the sort flag in the first limb. -/
def sortBit : Nat := Nat.pow 2 381

/-- Whether a flag is set in a first limb. -/
def isSet (flag limb : Nat) : Bool := limb / flag % 2 = 1

/-- How many limbs a coordinate has. -/
def limbCount {F : Type} (C : Coding F) : Nat := C.side.width .compressed / limbWidth

section

variable {F : Type} [Zero F] [One F] [Add F] [Sub F] [Mul F] [Neg F] [Div F] [DecidableEq F]
variable (C : Coding F)

/-! ## Writing -/

/-- The limbs of a coordinate as bytes. -/
def writeLimbs (a : F) : Bytes := (C.toLimbs a).flatMap fun limb => Bytes.ofNat limbWidth limb.val

/-- The affine encoding. -/
def encodeAffine (p : Point F) : Bytes :=
  if p.isInfinity then 0x40 :: Bytes.zeros (C.side.width .affine - 1)
  else
    let (x, y) := p.normalize
    C.writeLimbs x ++ C.writeLimbs y

/-- The compressed encoding of a point that is not at infinity, given its affine coordinates. -/
def compress (x y : F) : Bytes :=
  match C.toLimbs x with
  | [] => []
  | first :: rest =>
    let sort := if C.isUpperHalf y then sortBit else 0
    Bytes.ofNat limbWidth (first.val + sort + compressionBit) ++
      rest.flatMap fun limb => Bytes.ofNat limbWidth limb.val

/-- The compressed encoding.  In the second group the point has to be on the curve. -/
def encodeCompressed (p : Point F) : Except Failure Bytes :=
  if C.side = .g2 ∧ p.onCurve C.constant = false then .error .compressOffCurve
  else if p.isInfinity then .ok (0xc0 :: Bytes.zeros (C.side.width .compressed - 1))
  else
    let (x, y) := p.normalize
    .ok (C.compress x y)

/-! ## Reading -/

/-- A decoded point, once it is seen to be a member of the subgroup. -/
def validate (form : Form) (allowIdentity : Bool) (p : Point F) : Except Failure (Point F) :=
  if p.isInfinity then
    if allowIdentity then .ok p else .error (.unexpectedIdentity C.side form)
  else if p.onCurve C.constant = false then .error (.offCurve C.side form)
  else if Point.law.hasOrder groupOrder p = false then .error (.outsideSubgroup C.side form)
  else .ok p

/-- The limb that a number stands for. -/
def readLimb (form : Form) (n : Nat) : Except Failure Fq :=
  if h : n < q then .ok ⟨n, h⟩ else .error (.coordinateTooLarge C.side form)

/-- Decodes the affine encoding. -/
def decodeAffine (data : Bytes) (allowIdentity : Bool) : Except Failure (Point F) :=
  if data.length ≠ C.side.width .affine then
    .error (.wrongWidth (.point C.side .affine) data.length)
  else
    let first := data.headD 0
    let body := (first &&& 0x1f) :: data.tail
    if first &&& 0x80 ≠ 0 then .error (.badFlag C.side .compression)
    else if first &&& 0x20 ≠ 0 then .error (.badFlag C.side .sort)
    else if first &&& 0x40 ≠ 0 then
      if body.any (· ≠ 0) then .error (.badFlag C.side .infinity)
      else C.validate .affine allowIdentity Point.infinity
    else do
      let limbs ← (Bytes.pieces limbWidth (2 * C.limbCount) body).mapM fun piece =>
        C.readLimb .affine (Bytes.toNat piece)
      let x := C.ofLimbs (limbs.take C.limbCount)
      let y := C.ofLimbs (limbs.drop C.limbCount)
      C.validate .affine allowIdentity ⟨x, y, 1⟩

/-- The point whose abscissa is `x` and whose ordinate is on the side that the sort flag tells. -/
def lift? (x : F) (sort : Bool) : Option (Point F) :=
  (C.root? (x * x * x + C.constant)).map fun y =>
    ⟨x, if C.isUpperHalf y = sort then y else -y, 1⟩

/-- The point that a first limb with flags and the further limbs stand for. -/
def decompress (first : Nat) (rest : List Fq) : Except Failure (Point F) :=
  let fail (reason : Decompression) : Except Failure (Point F) :=
    .error (.notDecompressed C.side reason)
  let value := first % sortBit
  let infinite := value = 0 ∧ rest.all (· = 0)
  if isSet compressionBit first = false then fail .notCompressed
  else if isSet infinityBit first ≠ decide infinite then fail (.infinityExpected infinite)
  else if infinite then
    if isSet sortBit first then fail .signedInfinity else .ok Point.infinity
  else if h : value < q then
    match C.lift? (C.ofLimbs (⟨value, h⟩ :: rest)) (isSet sortBit first) with
    | some p => .ok p
    | none => fail .noPoint
  else fail (.aboveModulus value)

/-- Decodes the compressed encoding.  Only the first limb carries flags, and the others are checked
    before it. -/
def decodeCompressed (data : Bytes) (allowIdentity : Bool) : Except Failure (Point F) :=
  if data.length ≠ C.side.width .compressed then
    .error (.wrongWidth (.point C.side .compressed) data.length)
  else do
    let rest ← (Bytes.pieces limbWidth (C.limbCount - 1) (data.drop limbWidth)).mapM fun piece =>
      C.readLimb .compressed (Bytes.toNat piece)
    let p ← C.decompress (Bytes.toNat (data.take limbWidth)) rest
    C.validate .compressed allowIdentity p

/-- Decodes an encoding of the given form. -/
def decode (form : Form) (data : Bytes) (allowIdentity : Bool) : Except Failure (Point F) :=
  match form with
  | .affine => C.decodeAffine data allowIdentity
  | .compressed => C.decodeCompressed data allowIdentity

end

end Coding

/-! ## The two groups -/

/-- A square root in the prime field, whose modulus is three modulo four: one fixed power, if it is a
    root. -/
def Fq.squareRoot? (v : Fq) : Option Fq :=
  let y := power v ((q + 1) / 4)
  if y * y = v then some y else none

/-- The first group: a coordinate is one limb. -/
def coding₁ : Coding Fq where
  side := .g1
  constant := b₁
  coordinate := .prime
  ofCoordinate?
    | .prime a => some a
    | .extension _ => none
  toLimbs x := [x]
  ofLimbs limbs := limbs.headD 0
  root? := Fq.squareRoot?
  isUpperHalf := Fq.isUpperHalf

/-- The second group: a coordinate is two limbs, the imaginary part first. -/
def coding₂ : Coding Fq2 where
  side := .g2
  constant := b₂
  coordinate := .extension
  ofCoordinate?
    | .prime _ => none
    | .extension a => some a
  toLimbs x := [x.im, x.re]
  ofLimbs limbs := ⟨limbs.getD 1 0, limbs.getD 0 0⟩
  root? := Fq2.squareRoot?
  isUpperHalf := Fq2.isUpperHalf

end AggSig
