/-
  Polynomials in `w²`.

  The field of degree twelve is a ring of the characteristic of the prime field.  Replacing `w` by `-w`
  keeps products (`conj_mul`), and an element times what becomes of it is *even*: it has even powers of
  `w` only (`isEven_mul_conj`).

  The even elements are the polynomials in `w²`, whose third power is `1 + u`.  The power with exponent
  `q⁶` is therefore the identity on them (`IsEven.pow_frobenius`).  One whose norm is not zero has an
  inverse (`IsEven.isUnit`), and then the power with exponent `q⁶ - 1` is one (`IsEven.pow_eq_one`).
-/
import AggSig.Proofs.Field.Dodecic
import AggSig.Proofs.Field.Root
import Mathlib.Algebra.CharP.Lemmas

namespace AggSig.Fq12

open Fq2 (xi)

/-! ## The ring -/

instance : Add Fq12 :=
  ⟨fun a b => ⟨a.c0 + b.c0, a.c1 + b.c1, a.c2 + b.c2, a.c3 + b.c3, a.c4 + b.c4, a.c5 + b.c5⟩⟩

instance : Neg Fq12 := ⟨fun a => ⟨-a.c0, -a.c1, -a.c2, -a.c3, -a.c4, -a.c5⟩⟩

theorem add_eq (a b : Fq12) :
    a + b = ⟨a.c0 + b.c0, a.c1 + b.c1, a.c2 + b.c2, a.c3 + b.c3, a.c4 + b.c4, a.c5 + b.c5⟩ := rfl

theorem neg_eq (a : Fq12) : -a = ⟨-a.c0, -a.c1, -a.c2, -a.c3, -a.c4, -a.c5⟩ := rfl

instance : CommRing Fq12 where
  add_assoc a b c := by ext1 <;> simp only [add_eq, add_assoc]
  zero_add a := by ext1 <;> simp [add_eq]
  add_zero a := by ext1 <;> simp [add_eq]
  add_comm a b := by ext1 <;> simp only [add_eq, add_comm]
  neg_add_cancel a := by ext1 <;> simp [add_eq, neg_eq]
  mul_comm a b := by ext1 <;> simp only [mul_eq] <;> ring
  left_distrib a b c := by ext1 <;> simp only [mul_eq, add_eq] <;> ring
  right_distrib a b c := by ext1 <;> simp only [mul_eq, add_eq] <;> ring
  zero_mul a := by ext1 <;> simp [mul_eq]
  mul_zero a := by ext1 <;> simp [mul_eq]
  nsmul := nsmulRec
  zsmul := zsmulRec

/-- The elements of the quadratic extension, as constant polynomials. -/
def ofFq2 : Fq2 →+* Fq12 where
  toFun k := ⟨k, 0, 0, 0, 0, 0⟩
  map_one' := rfl
  map_mul' k l := by ext1 <;> simp [mul_eq]
  map_zero' := rfl
  map_add' k l := by ext1 <;> simp [add_eq]

theorem ofFq2_eq (k : Fq2) : ofFq2 k = ⟨k, 0, 0, 0, 0, 0⟩ := rfl

theorem scale_eq (k : Fq2) (a : Fq12) : a.scale k = ofFq2 k * a := by
  ext1 <;> simp [scale, ofFq2_eq, mul_eq]

instance : Nontrivial Fq12 := ⟨0, 1, fun h => zero_ne_one (congrArg c0 h)⟩

instance : CharP Fq12 q := by
  rw [CharP.charP_iff_prime_eq_zero prime_q]
  have hzero : (q : Fq2) = 0 := by
    have hcard := FiniteField.cast_card_eq_zero Fq2
    rwa [Fq2.card_eq, Nat.cast_mul, mul_self_eq_zero] at hcard
  rw [← map_natCast ofFq2, hzero, map_zero]

/-! ## The other root -/

/-- The polynomial with `w` replaced by `-w`. -/
def conj (a : Fq12) : Fq12 := ⟨a.c0, -a.c1, a.c2, -a.c3, a.c4, -a.c5⟩

theorem conj_mul (a b : Fq12) : (a * b).conj = a.conj * b.conj := by
  ext1 <;> simp only [conj, mul_eq] <;> ring

theorem conj_scale (k : Fq2) (a : Fq12) : (a.scale k).conj = a.conj.scale k := by
  ext1 <;> simp [conj, scale]

/-! ## Even elements -/

/-- Whether a polynomial has even powers of `w` only. -/
structure IsEven (a : Fq12) : Prop where
  c1_eq : a.c1 = 0
  c3_eq : a.c3 = 0
  c5_eq : a.c5 = 0

/-- An element times its conjugate has even powers only. -/
theorem isEven_mul_conj (a : Fq12) : IsEven (a * a.conj) := by
  constructor <;> simp only [conj, mul_eq] <;> ring

/-- What an even element is multiplied by to leave a constant. -/
def adjugate (a : Fq12) : Fq12 where
  c0 := a.c0 * a.c0 - xi * (a.c2 * a.c4)
  c1 := 0
  c2 := xi * (a.c4 * a.c4) - a.c0 * a.c2
  c3 := 0
  c4 := a.c2 * a.c2 - a.c0 * a.c4
  c5 := 0

/-- The constant that is left: the norm of an even element, in the quadratic extension. -/
def evenNorm (a : Fq12) : Fq2 :=
  a.c0 * a.adjugate.c0 + xi * (a.c2 * a.adjugate.c4 + a.c4 * a.adjugate.c2)

/-- The square of `w`. -/
def square : Fq12 := ⟨0, 0, 1, 0, 0, 0⟩

theorem square_mul_square : square * square = ⟨0, 0, 0, 0, 1, 0⟩ := by
  ext1 <;> simp [square, mul_eq]

theorem square_pow_three : square ^ 3 = ofFq2 xi := by
  rw [pow_succ, pow_two, square_mul_square]
  ext1 <;> simp [square, ofFq2_eq, mul_eq]

/-- The power with exponent `q⁶` fixes the square of `w`: its third power lies in the quadratic extension
    and has an order that divides `q² - 1`. -/
theorem square_pow_frobenius : square ^ q ^ 6 = square := by
  have hexp : q ^ 6 = 3 * ((q * q - 1) * ((q ^ 4 + q ^ 2 + 1) / 3)) + 1 := by decide
  have hxi : xi ^ (q * q - 1) = 1 := Fq2.pow_order (by decide)
  rw [hexp, pow_succ, pow_mul, square_pow_three, ← map_pow, pow_mul, hxi, one_pow, map_one, one_mul]

namespace IsEven

variable {a : Fq12} (ha : IsEven a)

include ha

/-- An even element is a polynomial in the second power. -/
theorem eq_polynomial :
    a = ofFq2 a.c0 + ofFq2 a.c2 * square + ofFq2 a.c4 * (square * square) := by
  rw [← scale_eq, ← scale_eq, square_mul_square]
  ext1 <;> simp [ofFq2_eq, square, scale, add_eq, ha.c1_eq, ha.c3_eq, ha.c5_eq]

/-- It fixes every even element, because it keeps sums and fixes what they are made of. -/
theorem pow_frobenius : a ^ q ^ 6 = a := by
  have hfixed : ∀ k : Fq2, ofFq2 k ^ q ^ 6 = ofFq2 k := by
    intro k
    have hcard := FiniteField.pow_card_pow 3 k
    rw [Fq2.card_eq] at hcard
    rw [← map_pow, show q ^ 6 = (q * q) ^ 3 by ring, hcard]
  rw [ha.eq_polynomial]
  simp only [add_pow_char_pow, mul_pow, hfixed, square_pow_frobenius]

/-- An even element times its adjugate is its norm. -/
theorem mul_adjugate : a * a.adjugate = ofFq2 a.evenNorm := by
  ext1 <;> simp only [mul_eq, ofFq2_eq, adjugate, evenNorm, ha.c1_eq, ha.c3_eq, ha.c5_eq] <;> ring

theorem isUnit (hnorm : a.evenNorm ≠ 0) : IsUnit a := by
  have hproduct : IsUnit (ofFq2 a.evenNorm) := (isUnit_iff_ne_zero.mpr hnorm).map ofFq2
  rw [← ha.mul_adjugate] at hproduct
  exact isUnit_of_mul_isUnit_left hproduct

/-- An even element with an inverse has an order that divides `q⁶ - 1`. -/
theorem pow_eq_one (hnorm : a.evenNorm ≠ 0) : a ^ (q ^ 6 - 1) = 1 := by
  have hexp : q ^ 6 = q ^ 6 - 1 + 1 := by decide
  have hpow := ha.pow_frobenius
  rw [hexp, pow_succ] at hpow
  exact (ha.isUnit hnorm).mul_right_cancel (hpow.trans (one_mul a).symm)

end IsEven

end AggSig.Fq12
