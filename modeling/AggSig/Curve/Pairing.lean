/-
  The pairing of the two groups, before and after its final exponentiation.

  The Miller value of a point `Q` of the second group and a point `P` of the first is a product of
  lines through multiples of the twisted `Q`, each evaluated at `P`.  Twisting divides the affine
  coordinates of `Q` by `w²` and `w³`.  A line is kept as a fraction: its numerator is a polynomial in
  `w` with three terms, and its denominator, cleared of `w`, lies in the quadratic extension, so the
  one division at the end happens there.  A multiple of `Q` at infinity makes a denominator zero, and
  then the value is zero.

  The value of a pair with an infinite member is one, and a pair with a member off its curve has none.
-/
import AggSig.Curve.Parameters
import AggSig.Failure
import AggSig.Field.Dodecic

namespace AggSig.Pairing

/-- A value of the pairing as a fraction. -/
structure Fraction where
  top : Fq12
  bottom : Fq2

/-- The product of two fractions. -/
def Fraction.mul (f g : Fraction) : Fraction := ⟨f.top * g.top, f.bottom * g.bottom⟩

/-- The quotient that a fraction stands for. -/
def Fraction.value (f : Fraction) : Fq12 := f.top.scale (Fq2.inverse f.bottom)

/-- The line of a given slope through a point, evaluated at `t`.  The slope is a fraction. -/
def sloped (slopeTop slopeBottom : Fq2) (p : Point Fq2) (t : Point Fq) : Fraction where
  top :=
    { (0 : Fq12) with
      c0 := (-(slopeBottom * p.z).scale t.y).scaleByXi
      c3 := (slopeBottom * p.y - slopeTop * p.x).scale t.z
      c5 := (slopeTop * p.z).scale t.x }
  bottom := ((slopeBottom * p.z).scale t.z).scaleByXi

/-- The vertical line through a point, evaluated at `t`. -/
def vertical (p : Point Fq2) (t : Point Fq) : Fraction where
  top :=
    { (0 : Fq12) with
      c0 := (p.z.scale t.x).scaleByXi
      c4 := -p.x.scale t.z }
  bottom := (p.z.scale t.z).scaleByXi

/-- The line through two points, or the tangent if they are equal, evaluated at `t`. -/
def line (p s : Point Fq2) (t : Point Fq) : Fraction :=
  let rise := s.y * p.z - p.y * s.z
  let run := s.x * p.z - p.x * s.z
  if run ≠ 0 then sloped rise run p t
  else if rise = 0 then
    let square := p.x * p.x
    sloped (square + square + square) (Point.twice (p.y * p.z)) p t
  else vertical p t

/-- The number whose digits drive the loop. -/
def loopCount : Nat := 0xd201000000010000

/-- One digit of the loop: the value so far is squared and the multiple of `Q` doubled; where the
    digit is one, `Q` is added as well. -/
def step (Q : Point Fq2) (P : Point Fq) (state : Fraction × Point Fq2) (digit : Bool) :
    Fraction × Point Fq2 :=
  let (f, R) := state
  let f := (f.mul f).mul (line R R P)
  let R := Point.double R
  if digit then (f.mul (line R Q P), Point.add R Q) else (f, R)

/-- The product of the lines of two finite points. -/
def miller (Q : Point Fq2) (P : Point Fq) : Fq12 :=
  let digits := (bits loopCount).reverse.drop 1
  (digits.foldl (step Q P) (⟨1, 1⟩, Q)).1.value

/-- The Miller value of a pair, for points on their curves. -/
def pair (Q : Point Fq2) (P : Point Fq) : Except Failure Fq12 :=
  if Q.onCurve b₂ = false then .error (.pairingOffCurve .g2)
  else if P.onCurve b₁ = false then .error (.pairingOffCurve .g1)
  else if P.isInfinity ∨ Q.isInfinity then .ok 1
  else .ok (miller Q P)

/-- The power that makes a Miller value one of the roots of unity of order `groupOrder`. -/
def finalExponentiation (f : Fq12) : Fq12 := power f ((Nat.pow q 12 - 1) / groupOrder)

end AggSig.Pairing
