/-
  The prime field is a field.

  `toZMod` sends a number below the modulus to its residue class; it is injective and keeps the
  operations, so the laws of a ring hold because they hold of residue classes.  The inverse is right
  by Fermat's little theorem, since the modulus is prime.
-/
import AggSig.Proofs.Field.Primality
import Mathlib.FieldTheory.Finite.Basic

namespace AggSig

instance fact_prime_q : Fact q.Prime := ⟨prime_q⟩

namespace Fq

/-- The residue class of an element. -/
def toZMod (a : Fq) : ZMod q := a.val

theorem toZMod_ofNat (n : Nat) : (ofNat n).toZMod = n := ZMod.natCast_mod n q

@[simp] theorem toZMod_zero : (0 : Fq).toZMod = 0 := (toZMod_ofNat 0).trans Nat.cast_zero

@[simp] theorem toZMod_one : (1 : Fq).toZMod = 1 := (toZMod_ofNat 1).trans Nat.cast_one

@[simp] theorem toZMod_add (a b : Fq) : (a + b).toZMod = a.toZMod + b.toZMod :=
  (toZMod_ofNat _).trans (Nat.cast_add a.val b.val)

@[simp] theorem toZMod_mul (a b : Fq) : (a * b).toZMod = a.toZMod * b.toZMod :=
  (toZMod_ofNat _).trans (Nat.cast_mul a.val b.val)

@[simp] theorem toZMod_neg (a : Fq) : (-a).toZMod = -a.toZMod := by
  refine (toZMod_ofNat (q - a.val)).trans ?_
  rw [Nat.cast_sub a.lt.le, ZMod.natCast_self, zero_sub]
  rfl

@[simp] theorem toZMod_sub (a b : Fq) : (a - b).toZMod = a.toZMod - b.toZMod := by
  refine (toZMod_ofNat (a.val + (q - b.val))).trans ?_
  rw [Nat.cast_add, Nat.cast_sub b.lt.le, ZMod.natCast_self, zero_sub, ← sub_eq_add_neg]
  rfl

theorem toZMod_injective : Function.Injective toZMod := by
  intro a b h
  have hval : a.val % q = b.val % q := (ZMod.natCast_eq_natCast_iff' a.val b.val q).mp h
  rw [Nat.mod_eq_of_lt a.lt, Nat.mod_eq_of_lt b.lt] at hval
  exact Fq.ext hval

/-- Elements are equal if a law of residue classes says so. -/
theorem eq_of_toZMod {a b : Fq} (h : a.toZMod = b.toZMod) : a = b := toZMod_injective h

instance : CommRing Fq where
  add_assoc a b c := eq_of_toZMod (by simp [add_assoc])
  zero_add a := eq_of_toZMod (by simp)
  add_zero a := eq_of_toZMod (by simp)
  add_comm a b := eq_of_toZMod (by simp [add_comm])
  neg_add_cancel a := eq_of_toZMod (by simp)
  sub_eq_add_neg a b := eq_of_toZMod (by simp [sub_eq_add_neg])
  mul_assoc a b c := eq_of_toZMod (by simp [mul_assoc])
  mul_comm a b := eq_of_toZMod (by simp [mul_comm])
  one_mul a := eq_of_toZMod (by simp)
  mul_one a := eq_of_toZMod (by simp)
  left_distrib a b c := eq_of_toZMod (by simp [mul_add])
  right_distrib a b c := eq_of_toZMod (by simp [add_mul])
  zero_mul a := eq_of_toZMod (by simp)
  mul_zero a := eq_of_toZMod (by simp)
  nsmul := nsmulRec
  zsmul := zsmulRec

theorem ofNat_add (m n : Nat) : ofNat (m + n) = ofNat m + ofNat n :=
  eq_of_toZMod (by simp [toZMod_ofNat])

theorem ofNat_mul (m n : Nat) : ofNat (m * n) = ofNat m * ofNat n :=
  eq_of_toZMod (by simp [toZMod_ofNat])

@[simp] theorem ofNat_val (a : Fq) : ofNat a.val = a :=
  Fq.ext (Nat.mod_eq_of_lt a.lt)

theorem toZMod_pow (a : Fq) (n : Nat) : (a ^ n).toZMod = a.toZMod ^ n := by
  induction n with
  | zero => simp
  | succ n ih => simp [pow_succ, ih]

/-- A non-zero element times its inverse is one. -/
theorem mul_inverse {a : Fq} (ha : a ≠ 0) : a * inverse a = 1 := by
  have hne : a.toZMod ≠ 0 := fun h => ha (eq_of_toZMod (h.trans toZMod_zero.symm))
  have hexp : q - 2 + 1 = q - 1 := by decide
  apply eq_of_toZMod
  rw [inverse, power_eq_pow, ← pow_succ', toZMod_pow, hexp, ZMod.pow_card_sub_one_eq_one hne,
    toZMod_one]

/-- Zero is taken for its own inverse. -/
theorem inverse_zero : inverse 0 = 0 := by
  rw [inverse, power_eq_pow, zero_pow (by decide)]

instance : Field Fq where
  inv := inverse
  exists_pair_ne := ⟨0, 1, by decide⟩
  mul_inv_cancel _ := mul_inverse
  inv_zero := inverse_zero
  nnqsmul := _
  nnqsmul_def _ _ := rfl
  qsmul := _
  qsmul_def _ _ := rfl

/-- The inverse of the field is the one that is computed. -/
theorem inverse_eq_inv (a : Fq) : inverse a = a⁻¹ := rfl

/-- The elements are the numbers below the modulus. -/
def equivFin : Fq ≃ Fin q where
  toFun a := ⟨a.val, a.lt⟩
  invFun i := ⟨i.val, i.isLt⟩
  left_inv _ := rfl
  right_inv _ := rfl

instance : Fintype Fq := Fintype.ofEquiv (Fin q) equivFin.symm

theorem card_eq : Fintype.card Fq = q := by
  rw [Fintype.card_congr equivFin, Fintype.card_fin]

end Fq

end AggSig
