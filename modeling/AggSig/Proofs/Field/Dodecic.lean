/-
  Products in the field of degree twelve.

  A coefficient of a product is a sum of products of coefficients, those of degree six and more times
  `1 + u`; read off that way (`mul_eq`), the laws of products are identities of polynomials in the
  coefficients.  Products are associative and one is their unit, so they form a monoid, and factors
  from the quadratic extension can be drawn out of them (`scale_mul_scale`).
-/
import AggSig.Field.Dodecic
import AggSig.Proofs.Field.Quadratic

namespace AggSig

namespace Fq2

/-- The element `1 + u`, the sixth power of `w`. -/
def xi : Fq2 := ⟨1, 1⟩

theorem scaleByXi_eq (a : Fq2) : a.scaleByXi = xi * a := by
  ext1
  · rw [scaleByXi, re_mul, xi, one_mul, one_mul]
  · rw [scaleByXi, im_mul, xi, one_mul, one_mul, add_comm]

theorem ofNats_add (a b c d : Nat) : ofNats (a + b) (c + d) = ofNats a c + ofNats b d := by
  ext1
  · exact Fq.ofNat_add a b
  · exact Fq.ofNat_add c d

/-- A sum that is reduced once is the sum of the products. -/
theorem dot_eq (pairs : List (Fq2 × Fq2)) : dot pairs = (pairs.map fun p => p.1 * p.2).sum := by
  -- on the pairs, with any partial sum; its parts are reduced at the end only
  have hgo : ∀ re im, dot.go pairs re im = ofNats re im + (pairs.map fun p => p.1 * p.2).sum := by
    induction pairs with
    | nil =>
      intro re im
      exact (add_zero _).symm
    | cons p rest ih =>
      intro re im
      obtain ⟨a, b⟩ := p
      show dot.go rest (re + wideRe a b) (im + wideIm a b) = _
      rw [ih, ofNats_add, List.map_cons, List.sum_cons, add_assoc]
      rfl
  have hzero : ofNats 0 0 = 0 := rfl
  rw [dot, hgo, hzero, zero_add]

end Fq2

namespace Fq12

open Fq2 (xi)

@[ext] theorem ext {a b : Fq12} (h0 : a.c0 = b.c0) (h1 : a.c1 = b.c1) (h2 : a.c2 = b.c2)
    (h3 : a.c3 = b.c3) (h4 : a.c4 = b.c4) (h5 : a.c5 = b.c5) : a = b := by
  cases a; cases b; cases h0; cases h1; cases h2; cases h3; cases h4; cases h5; rfl

/-! ## The coefficients of a product -/

/-- A product has the coordinates of the product of polynomials, with sixth powers replaced by the
    constant. -/
theorem mul_eq (a b : Fq12) : a * b =
    { c0 := a.c0 * b.c0 + xi * (a.c5 * b.c1 + a.c4 * b.c2 + a.c3 * b.c3 + a.c2 * b.c4 + a.c1 * b.c5)
      c1 := a.c1 * b.c0 + a.c0 * b.c1 + xi * (a.c5 * b.c2 + a.c4 * b.c3 + a.c3 * b.c4 + a.c2 * b.c5)
      c2 := a.c2 * b.c0 + a.c1 * b.c1 + a.c0 * b.c2 + xi * (a.c5 * b.c3 + a.c4 * b.c4 + a.c3 * b.c5)
      c3 := a.c3 * b.c0 + a.c2 * b.c1 + a.c1 * b.c2 + a.c0 * b.c3 + xi * (a.c5 * b.c4 + a.c4 * b.c5)
      c4 := a.c4 * b.c0 + a.c3 * b.c1 + a.c2 * b.c2 + a.c1 * b.c3 + a.c0 * b.c4 + xi * (a.c5 * b.c5)
      c5 := a.c5 * b.c0 + a.c4 * b.c1 + a.c3 * b.c2 + a.c2 * b.c3 + a.c1 * b.c4 + a.c0 * b.c5 } := by
  show mul a b = _
  rw [mul]
  simp only [Fq2.dot_eq, Fq2.scaleByXi_eq, List.map_cons, List.map_nil, List.sum_cons, List.sum_nil]
  ext1 <;> ring

/-! ## The monoid of products -/

@[simp] theorem one_c0 : (1 : Fq12).c0 = 1 := rfl
@[simp] theorem one_c1 : (1 : Fq12).c1 = 0 := rfl
@[simp] theorem one_c2 : (1 : Fq12).c2 = 0 := rfl
@[simp] theorem one_c3 : (1 : Fq12).c3 = 0 := rfl
@[simp] theorem one_c4 : (1 : Fq12).c4 = 0 := rfl
@[simp] theorem one_c5 : (1 : Fq12).c5 = 0 := rfl

instance : Monoid Fq12 where
  mul_assoc a b c := by ext1 <;> simp only [mul_eq] <;> ring
  one_mul a := by ext1 <;> simp [mul_eq]
  mul_one a := by ext1 <;> simp [mul_eq]

/-! ## Factors from the quadratic extension -/

@[simp] theorem zero_c0 : (0 : Fq12).c0 = 0 := rfl
@[simp] theorem zero_c1 : (0 : Fq12).c1 = 0 := rfl
@[simp] theorem zero_c2 : (0 : Fq12).c2 = 0 := rfl
@[simp] theorem zero_c3 : (0 : Fq12).c3 = 0 := rfl
@[simp] theorem zero_c4 : (0 : Fq12).c4 = 0 := rfl
@[simp] theorem zero_c5 : (0 : Fq12).c5 = 0 := rfl

/-- Factors can be drawn out of a product. -/
theorem scale_mul_scale (k l : Fq2) (a b : Fq12) : a.scale k * b.scale l = (a * b).scale (k * l) := by
  ext1 <;> simp only [mul_eq, scale] <;> ring

theorem scale_scale (k l : Fq2) (a : Fq12) : (a.scale l).scale k = a.scale (k * l) := by
  ext1 <;> simp [scale] <;> ring

theorem one_scale (a : Fq12) : a.scale 1 = a := by
  ext1 <;> simp [scale]

end Fq12

end AggSig
