/-
  Hashing byte strings to points of the second group.

  The bytes expanded from a message give two elements of the quadratic extension.  Each is sent to a
  point of an auxiliary curve `y² = x³ + A x + B` by the simplified map of Shallue, van de Woestijne
  and Ulas, and from there by an isogeny of degree three to the curve of the second group.  The sum of
  the two points, times a multiple of the cofactor, lies in the subgroup of prime order.
-/
import AggSig.Curve.Parameters
import AggSig.Hash.Tag

namespace AggSig.ToCurve

/-! ## Field elements from uniform bytes -/

/-- The number that sixty-four uniform bytes give. -/
def element (bs : Bytes) : Fq := Fq.ofNat (Bytes.toNat (bs.take 64))

/-- The two elements of the quadratic extension that a message gives. -/
def elements (message tag : Bytes) : Fq2 × Fq2 :=
  let bs := Expansion.expand message tag 256
  (⟨element bs, element (bs.drop 64)⟩, ⟨element (bs.drop 128), element (bs.drop 192)⟩)

/-! ## The auxiliary curve -/

/-- The coefficient of `x` on the auxiliary curve. -/
def coefficientA : Fq2 := Fq2.ofNats 0 240

/-- The constant term of the auxiliary curve. -/
def coefficientB : Fq2 := Fq2.ofNats 1012 1012

/-- A fixed non-square. -/
def nonSquare : Fq2 := -Fq2.ofNats 2 1

/-- The parity of a field element: that of its real part, or of its imaginary part where the real part
    is zero. -/
def isOdd (a : Fq2) : Bool := a.re.val % 2 = 1 || (a.re.val = 0 && a.im.val % 2 = 1)

/-- The right side of the auxiliary curve's equation. -/
def rightSide (x : Fq2) : Fq2 := (x * x + coefficientA) * x + coefficientB

/-- A point of the auxiliary curve, with the parity of the element it comes from. -/
def mapToAuxiliary (t : Fq2) : Fq2 × Fq2 :=
  let zt := nonSquare * (t * t)
  let sum := zt * zt + zt
  let x1 :=
    if sum = 0 then coefficientB / (nonSquare * coefficientA)
    else -coefficientB / coefficientA * (1 + 1 / sum)
  let (x, y) :=
    match Fq2.squareRoot? (rightSide x1) with
    | some y => (x1, y)
    | none =>
      let x2 := zt * x1
      (x2, (Fq2.squareRoot? (rightSide x2)).getD 0)
  (x, if isOdd t = isOdd y then y else -y)

/-! ## The isogeny -/

/-- The value of a cubic polynomial, given its coefficients from the top. -/
def cubic (c3 c2 c1 c0 x : Fq2) : Fq2 := ((c3 * x + c2) * x + c1) * x + c0

/-- The image of a point of the auxiliary curve on the curve of the second group. -/
def isogeny (x y : Fq2) : Point Fq2 :=
  let xTop := cubic 1 (Fq2.ofNats 12 0 - Fq2.ofNats 0 12) (-Fq2.ofNats 0 24) (Fq2.ofNats 304 304) x
  let xBottom := Fq2.ofNats 9 0 *
    cubic 0 1 (Fq2.ofNats 12 0 - Fq2.ofNats 0 12) (-Fq2.ofNats 0 72) x
  let yTop := -y *
    cubic 1 (Fq2.ofNats 18 0 - Fq2.ofNats 0 18) (-Fq2.ofNats 0 264) (-Fq2.ofNats 752 752) x
  let yBottom := Fq2.ofNats 27 0 *
    cubic 1 (Fq2.ofNats 18 0 - Fq2.ofNats 0 18) (-Fq2.ofNats 0 216) (-Fq2.ofNats 432 432) x
  ⟨xTop * yBottom, yTop * xBottom, xBottom * yBottom⟩

/-- The point of the curve of the second group that a field element gives. -/
def mapToCurve (t : Fq2) : Point Fq2 :=
  let (x, y) := mapToAuxiliary t
  isogeny x y

/-- The multiple of the cofactor that moves every point into the subgroup of prime order. -/
def cofactorMultiple : Nat :=
  0xbc69f08f2ee75b3584c6a0ea91b352888e2a8e9145ad7689986ff031508ffe1329c2f178731db956d82bf015d1212b02ec0ec69d7477c1ae954cbc06689f6a359894c0adebbf6b4e8020005aaa95551

/-- The point that a message hashes to under a tag. -/
def hash (tag : Tag) (message : Bytes) : Point Fq2 :=
  let (t, u) := elements message tag.bytes
  Point.law.multiply (Point.add (mapToCurve t) (mapToCurve u)) cofactorMultiple

end AggSig.ToCurve
