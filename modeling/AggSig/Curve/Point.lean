/-
  Points in homogeneous projective coordinates, over any field.

  The triple `(x, y, z)` with `z ≠ 0` stands for the affine point `(x/z, y/z)`; a triple with `z = 0`
  is a point at infinity.  `add` and `double` are the complete case analysis on such triples: they
  never divide, and the case of equal or opposite points is decided by cross multiplication.

  `same` compares two triples by cross multiplication too, so two scalings of one point are the same.
  It does not look at `z` itself: the triple `(0, 0, 0)`, which doubling a point at infinity twice
  arrives at, is the same as every triple.

  The formulas serve both groups: the first has its coordinates in the prime field, the second in the
  quadratic extension.
-/
import AggSig.Field.Power

namespace AggSig

/-- A triple of homogeneous projective coordinates. -/
structure Point (F : Type) where
  x : F
  y : F
  z : F
  deriving DecidableEq

namespace Point

variable {F : Type} [Zero F] [One F] [Add F] [Sub F] [Mul F] [Neg F] [Div F] [DecidableEq F]

/-- The point at infinity that sums start from. -/
def infinity : Point F := ⟨1, 1, 0⟩

/-- Whether the triple stands for a point at infinity. -/
def isInfinity (p : Point F) : Bool := p.z = 0

/-- The affine coordinates. -/
def normalize (p : Point F) : F × F := (p.x / p.z, p.y / p.z)

/-- The reflection at the x-axis. -/
def neg (p : Point F) : Point F := ⟨p.x, -p.y, p.z⟩

/-- Whether two triples have the same ratios `x : z` and `y : z`. -/
def same (p r : Point F) : Bool := p.x * r.z = r.x * p.z ∧ p.y * r.z = r.y * p.z

/-- Whether the triple is at infinity or satisfies `y² = x³ + b`, cleared of denominators. -/
def onCurve (b : F) (p : Point F) : Bool :=
  p.isInfinity || p.y * p.y * p.z - p.x * p.x * p.x = b * (p.z * p.z * p.z)

/-- Twice an element. -/
def twice (a : F) : F := a + a

/-- The tangent construction. -/
def double (p : Point F) : Point F :=
  let square := p.x * p.x
  let w := square + square + square
  let s := p.y * p.z
  let b := p.x * p.y * s
  let b4 := twice (twice b)
  let h := w * w - twice b4
  let s2 := s * s
  { x := twice (h * s)
    y := w * (b4 - h) - twice (twice (twice (p.y * p.y * s2)))
    z := twice (twice (twice (s * s2))) }

/-- The chord construction, with the cases it leaves open: an infinite operand, equal points, and
    opposite points. -/
def add (p r : Point F) : Point F :=
  if p.z = 0 ∨ r.z = 0 then
    if r.z = 0 then p else r
  else
    let u1 := r.y * p.z
    let u2 := p.y * r.z
    let v1 := r.x * p.z
    let v2 := p.x * r.z
    if v1 = v2 then
      if u1 = u2 then double p else infinity
    else
      let u := u1 - u2
      let v := v1 - v2
      let vSquared := v * v
      let vSquaredTimesV2 := vSquared * v2
      let vCubed := v * vSquared
      let w := p.z * r.z
      let a := u * u * w - vCubed - twice vSquaredTimesV2
      { x := v * a
        y := u * (vSquaredTimesV2 - a) - vCubed * u2
        z := vCubed * w }

end Point

end AggSig
