/-
  The field of degree twelve that pairings take their values in.

  An element is a polynomial of degree at most five in `w` over the quadratic extension, where
  `w⁶ = 1 + u`.  Over the prime field the same element is a polynomial of degree at most eleven in
  `w`, because `u = w⁶ - 1`: the number `a + b · u` in front of `wⁱ` is `a - b` in front of `wⁱ` and
  `b` in front of `wⁱ⁺⁶`.  `coefficients` lists it in that form, modulo `w¹² - 2w⁶ + 2`.
-/
import AggSig.Field.Quadratic

namespace AggSig

/-- The polynomial `c0 + c1 · w + … + c5 · w⁵`, where `w⁶ = 1 + u`. -/
structure Fq12 where
  c0 : Fq2
  c1 : Fq2
  c2 : Fq2
  c3 : Fq2
  c4 : Fq2
  c5 : Fq2
  deriving DecidableEq

namespace Fq12

instance : Zero Fq12 := ⟨⟨0, 0, 0, 0, 0, 0⟩⟩
instance : One Fq12 := ⟨⟨1, 0, 0, 0, 0, 0⟩⟩
instance : Inhabited Fq12 := ⟨0⟩

/-- The product: each coefficient gathers the products of matching degree, those of degree six and
    more times `1 + u`. -/
def mul (a b : Fq12) : Fq12 :=
  let x1 := a.c1.scaleByXi
  let x2 := a.c2.scaleByXi
  let x3 := a.c3.scaleByXi
  let x4 := a.c4.scaleByXi
  let x5 := a.c5.scaleByXi
  let row (k0 k1 k2 k3 k4 k5 : Fq2) : Fq2 :=
    Fq2.dot [(k0, b.c0), (k1, b.c1), (k2, b.c2), (k3, b.c3), (k4, b.c4), (k5, b.c5)]
  { c0 := row a.c0 x5 x4 x3 x2 x1
    c1 := row a.c1 a.c0 x5 x4 x3 x2
    c2 := row a.c2 a.c1 a.c0 x5 x4 x3
    c3 := row a.c3 a.c2 a.c1 a.c0 x5 x4
    c4 := row a.c4 a.c3 a.c2 a.c1 a.c0 x5
    c5 := row a.c5 a.c4 a.c3 a.c2 a.c1 a.c0 }

instance : Mul Fq12 := ⟨mul⟩

/-- The multiple by an element of the quadratic extension. -/
def scale (k : Fq2) (a : Fq12) : Fq12 :=
  ⟨k * a.c0, k * a.c1, k * a.c2, k * a.c3, k * a.c4, k * a.c5⟩

/-- The coefficients over the prime field, from `w⁰` up to `w¹¹`. -/
def coefficients (a : Fq12) : List Fq :=
  let cs := [a.c0, a.c1, a.c2, a.c3, a.c4, a.c5]
  cs.map (fun c => c.re - c.im) ++ cs.map (fun c => c.im)

end Fq12

end AggSig
