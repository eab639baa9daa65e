/-
  The quadratic extension of the prime field: numbers `re + im · u` with `u² = -1`.

  A product is computed over the natural numbers and reduced once per coordinate, which is what makes
  `dot`, a sum of many products, no dearer to reduce than one product.  As in the prime field, zero
  has the inverse zero.

  `squareRoot?` takes one fixed power as a candidate; the candidate is a root up to an eighth root of
  unity, and dividing by a square root of that unity's even power mends it.  Of the two roots it
  gives the one that is larger by imaginary part, or by real part where the imaginary parts agree.
-/
import AggSig.Field.Prime

namespace AggSig

/-- The number `re + im · u`, where `u` squares to minus one. -/
structure Fq2 where
  re : Fq
  im : Fq
  deriving DecidableEq

namespace Fq2

instance : Zero Fq2 := ⟨⟨0, 0⟩⟩
instance : One Fq2 := ⟨⟨1, 0⟩⟩
instance : Add Fq2 := ⟨fun a b => ⟨a.re + b.re, a.im + b.im⟩⟩
instance : Sub Fq2 := ⟨fun a b => ⟨a.re - b.re, a.im - b.im⟩⟩
instance : Neg Fq2 := ⟨fun a => ⟨-a.re, -a.im⟩⟩
instance : Inhabited Fq2 := ⟨0⟩

/-- A number with the given coordinates, each reduced. -/
def ofNats (re im : Nat) : Fq2 := ⟨Fq.ofNat re, Fq.ofNat im⟩

/-- The real coordinate of a product, before reduction. -/
def wideRe (a b : Fq2) : Nat := a.re.val * b.re.val + (q - a.im.val) * b.im.val

/-- The imaginary coordinate of a product, before reduction. -/
def wideIm (a b : Fq2) : Nat := a.re.val * b.im.val + a.im.val * b.re.val

instance : Mul Fq2 := ⟨fun a b => ofNats (wideRe a b) (wideIm a b)⟩

/-- The sum of the products of the pairs, reduced once at the end. -/
def dot (pairs : List (Fq2 × Fq2)) : Fq2 := go pairs 0 0
where
  /-- Adds the products of the remaining pairs onto both unreduced coordinates. -/
  go : List (Fq2 × Fq2) → Nat → Nat → Fq2
    | [], re, im => ofNats re im
    | (a, b) :: rest, re, im => go rest (re + wideRe a b) (im + wideIm a b)

/-- A multiple by an element of the prime field. -/
def scale (k : Fq) (a : Fq2) : Fq2 := ⟨k * a.re, k * a.im⟩

/-- A multiple by `1 + u`. -/
def scaleByXi (a : Fq2) : Fq2 := ⟨a.re - a.im, a.re + a.im⟩

/-- The inverse of an element; that of zero is zero. -/
def inverse (a : Fq2) : Fq2 :=
  let norm := (a.re * a.re + a.im * a.im).inverse
  ⟨a.re * norm, -(a.im * norm)⟩

instance : Div Fq2 := ⟨fun a b => a * inverse b⟩

/-- Which of two opposite elements this is: decided by the imaginary part, or by the real part where
    the imaginary part is zero. -/
def isUpperHalf (a : Fq2) : Bool :=
  if 0 < a.im.val then a.im.isUpperHalf else a.re.isUpperHalf

/-! ## Square roots -/

/-- The powers `0, 1, …, 7` of an eighth root of unity. -/
def eighthRoots : List Fq2 := (List.range 8).map fun k => power (ofNats 1 1) ((q * q - 1) * k / 8)

/-- The order of pairs of coordinates in which the larger of two roots is chosen. -/
def exceeds (a b : Fq2) : Bool :=
  b.im.val < a.im.val || (a.im.val == b.im.val && b.re.val < a.re.val)

/-- The larger of the two square roots of a non-zero square; nothing for any other element. -/
def squareRoot? (v : Fq2) : Option Fq2 :=
  let candidate := power v ((q * q - 1 + 8) / 16)
  let unity := candidate * candidate / v
  let root (k : Nat) : Fq2 := eighthRoots.getD k 1
  match [0, 1, 2, 3].find? (fun k => unity = root (2 * k)) with
  | none => none
  | some k =>
    let y := candidate / root k
    some (if exceeds y (-y) then y else -y)

end Fq2

end AggSig
