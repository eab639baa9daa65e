/-
  Binary digits, and the powers that are computed along them.

  `bits_of_pos` is the recursion that the digits of a number follow; every algorithm that walks along
  digits is opened through it and not through the digits' fuel.  `power_eq_pow` is what such a walk
  computes in a monoid, and `map_power` carries a computed power along a map that keeps products, so
  that a power can be computed where computing is cheap and be reasoned about elsewhere.
-/
import AggSig.RawPoint
import Mathlib.Algebra.Group.Basic
import Mathlib.Data.Nat.Log

namespace AggSig

/-- The digits of a number that is not zero: its parity, and the digits of its half. -/
theorem bits_of_pos {n : Nat} (hn : n ≠ 0) : bits n = (n % 2 == 1) :: bits (n / 2) := by
  have hstep : bits n = (n % 2 == 1) :: bitsUpTo n.log2 (n / 2) := by
    rw [bits, bitsUpTo, if_neg hn]
  rw [hstep]
  rcases Nat.lt_or_ge n 2 with h2 | h2
  · -- the last digit: no fuel is left, and none is needed
    obtain rfl : n = 1 := by omega
    rfl
  · rw [bits, Nat.log2_def n, if_pos h2]

section

variable {M N : Type}

/-- A power computed along the digits is the power. -/
theorem power_eq_pow [Monoid M] (a : M) (n : Nat) : power a n = a ^ n := by
  -- on the exponent, which is halved at each bit
  induction n using Nat.strong_induction_on generalizing a with
  | _ n ih =>
    rcases Nat.eq_zero_or_pos n with rfl | hn
    · rw [pow_zero]; rfl
    · have hrest : powerBits (a * a) (bits (n / 2)) = (a * a) ^ (n / 2) :=
        ih (n / 2) (Nat.div_lt_self hn (by omega)) (a * a)
      have hdouble : (a * a) ^ (n / 2) = a ^ (2 * (n / 2)) := by rw [← pow_two, ← pow_mul]
      rw [power, bits_of_pos hn.ne', powerBits, hrest, hdouble]
      rcases Nat.mod_two_eq_zero_or_one n with h | h
      · have hn' : 2 * (n / 2) = n := by omega
        simp [h, hn']
      · have hn' : 2 * (n / 2) + 1 = n := by omega
        simp [h, ← pow_succ', hn']

/-- A map that keeps products and one keeps computed powers. -/
theorem map_power [Mul M] [One M] [Mul N] [One N] (f : M → N) (hone : f 1 = 1)
    (hmul : ∀ a b, f (a * b) = f a * f b) (a : M) (n : Nat) : f (power a n) = power (f a) n := by
  rw [power, power]
  induction bits n generalizing a with
  | nil => exact hone
  | cons b bs ih =>
    rw [powerBits, powerBits, ← hmul]
    cases b with
    | false => exact ih (a * a)
    | true => show f (a * powerBits (a * a) bs) = _; rw [hmul, ih (a * a)]; rfl

end

end AggSig
