/-
  The quadratic extension is a field.

  The laws of a ring are read off the coordinates of a product.  An inverse divides by the norm
  `re² + im²`, which is zero for zero only: the modulus is three modulo four, so minus one is not a
  square in the prime field.
-/
import AggSig.Proofs.Field.Prime
import Mathlib.NumberTheory.LegendreSymbol.Basic
import Mathlib.Tactic.LinearCombination

namespace AggSig

/-- Minus one is no square in the prime field. -/
theorem Fq.sq_ne_neg_one (a : Fq) : a * a ≠ -1 := by
  intro h
  have hsquare : IsSquare (-1 : ZMod q) := by
    refine ⟨a.toZMod, ?_⟩
    rw [← toZMod_mul, h, toZMod_neg, toZMod_one]
  exact ZMod.exists_sq_eq_neg_one_iff.mp hsquare (by decide)

namespace Fq2

@[ext] theorem ext {a b : Fq2} (hre : a.re = b.re) (him : a.im = b.im) : a = b := by
  cases a; cases b; cases hre; cases him; rfl

@[simp] theorem re_zero : (0 : Fq2).re = 0 := rfl
@[simp] theorem im_zero : (0 : Fq2).im = 0 := rfl
@[simp] theorem re_one : (1 : Fq2).re = 1 := rfl
@[simp] theorem im_one : (1 : Fq2).im = 0 := rfl
@[simp] theorem re_add (a b : Fq2) : (a + b).re = a.re + b.re := rfl
@[simp] theorem im_add (a b : Fq2) : (a + b).im = a.im + b.im := rfl
@[simp] theorem re_sub (a b : Fq2) : (a - b).re = a.re - b.re := rfl
@[simp] theorem im_sub (a b : Fq2) : (a - b).im = a.im - b.im := rfl
@[simp] theorem re_neg (a : Fq2) : (-a).re = -a.re := rfl
@[simp] theorem im_neg (a : Fq2) : (-a).im = -a.im := rfl

/-- Products are those of complex numbers: the square of the imaginary unit is minus one. -/
@[simp] theorem re_mul (a b : Fq2) : (a * b).re = a.re * b.re - a.im * b.im := by
  show Fq.ofNat (a.re.val * b.re.val + (q - a.im.val) * b.im.val) = _
  have hneg : Fq.ofNat (q - a.im.val) = -a.im := rfl
  rw [Fq.ofNat_add, Fq.ofNat_mul, Fq.ofNat_mul, hneg]
  simp only [Fq.ofNat_val]
  ring

/-- Their imaginary parts come from the two crossed products. -/
@[simp] theorem im_mul (a b : Fq2) : (a * b).im = a.re * b.im + a.im * b.re := by
  show Fq.ofNat (a.re.val * b.im.val + a.im.val * b.re.val) = _
  rw [Fq.ofNat_add, Fq.ofNat_mul, Fq.ofNat_mul]
  simp only [Fq.ofNat_val]

instance : CommRing Fq2 where
  add_assoc a b c := by ext1 <;> simp [add_assoc]
  zero_add a := by ext1 <;> simp
  add_zero a := by ext1 <;> simp
  add_comm a b := by ext1 <;> simp [add_comm]
  neg_add_cancel a := by ext1 <;> simp
  sub_eq_add_neg a b := by ext1 <;> simp [sub_eq_add_neg]
  mul_assoc a b c := by ext1 <;> simp <;> ring
  mul_comm a b := by ext1 <;> simp <;> ring
  one_mul a := by ext1 <;> simp
  mul_one a := by ext1 <;> simp
  left_distrib a b c := by ext1 <;> simp <;> ring
  right_distrib a b c := by ext1 <;> simp <;> ring
  zero_mul a := by ext1 <;> simp
  mul_zero a := by ext1 <;> simp
  nsmul := nsmulRec
  zsmul := zsmulRec

/-- The norm of an element is zero only if the element is. -/
theorem norm_ne_zero {a : Fq2} (ha : a ≠ 0) : a.re * a.re + a.im * a.im ≠ 0 := by
  intro h
  have him : a.im = 0 := by
    by_contra him
    -- otherwise the ratio of the coordinates squares to minus one
    apply Fq.sq_ne_neg_one (a.re / a.im)
    field_simp
    linear_combination h
  have hre : a.re = 0 := by
    rw [him, mul_zero, add_zero] at h
    exact mul_self_eq_zero.mp h
  exact ha (Fq2.ext hre him)

/-- A non-zero element times its inverse is one. -/
theorem mul_inverse {a : Fq2} (ha : a ≠ 0) : a * inverse a = 1 := by
  have hnorm := mul_inv_cancel₀ (norm_ne_zero ha)
  ext1
  · simp only [inverse, re_mul, re_one, Fq.inverse_eq_inv]
    linear_combination hnorm
  · simp only [inverse, im_mul, im_one, Fq.inverse_eq_inv]
    ring

theorem inverse_zero : inverse 0 = 0 := by
  ext1 <;> simp [inverse]

instance : Field Fq2 where
  inv := inverse
  exists_pair_ne := ⟨0, 1, by decide⟩
  mul_inv_cancel _ := mul_inverse
  inv_zero := inverse_zero
  nnqsmul := _
  nnqsmul_def _ _ := rfl
  qsmul := _
  qsmul_def _ _ := rfl

end Fq2

end AggSig
