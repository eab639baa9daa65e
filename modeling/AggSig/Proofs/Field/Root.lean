/-
  Square roots, and which of two opposite elements is the upper one.

  A root is found for every square that a coordinate's ordinate can have: of every square in the prime
  field (`Fq.squareRoot?_mul_self`), and of every square other than zero in the extension
  (`Fq2.squareRoot?_mul_self`).  What is found is one of the two roots (`Fq2.mul_self_of_squareRoot?`);
  the other one is its opposite, and the two are told apart by the half that they are in
  (`isUpperHalf_neg`).

  In the extension the candidate's square is off by a fourth root of unity.  There are four of those,
  all of them even powers of the eighth root of unity that is at hand (`Fq2.exists_eighthRoot_eq`).
-/
import AggSig.Proofs.Field.Quadratic

namespace AggSig

namespace Fq

/-- Of two opposite elements that are not zero, one is in the upper half. -/
theorem isUpperHalf_neg {a : Fq} (ha : a ≠ 0) : (-a).isUpperHalf = !a.isUpperHalf := by
  have hpos : 0 < a.val := by
    rcases Nat.eq_zero_or_pos a.val with h | h
    · exact absurd (Fq.ext h) ha
    · exact h
  have hodd : q % 2 = 1 := by decide
  have hval : (-a).val = q - a.val := by
    rw [val_neg, Nat.mod_eq_of_lt (Nat.sub_lt q_pos hpos)]
  have hlt := a.lt
  rw [isUpperHalf, isUpperHalf, hval, ← decide_not, decide_eq_decide]
  omega

theorem pow_modulus_sub_one {a : Fq} (ha : a ≠ 0) : a ^ (q - 1) = 1 := by
  rw [← card_eq]
  exact FiniteField.pow_card_sub_one_eq_one a ha

/-- Of every square a root is found. -/
theorem squareRoot?_mul_self (y : Fq) :
    ∃ r, squareRoot? (y * y) = some r ∧ (r = y ∨ r = -y) := by
  have hroot : power (y * y) ((q + 1) / 4) * power (y * y) ((q + 1) / 4) = y * y := by
    have hexp : 2 * ((q + 1) / 4 + (q + 1) / 4) = q - 1 + 2 := by decide
    rw [power_eq_pow, ← pow_add, ← pow_two y, ← pow_mul, hexp]
    by_cases hy : y = 0
    · rw [hy, zero_pow (by decide), zero_pow (by decide)]
    · rw [pow_add, pow_modulus_sub_one hy, one_mul]
  refine ⟨_, ?_, mul_self_eq_mul_self_iff.mp hroot⟩
  rw [squareRoot?]
  simp only [hroot, if_true]

end Fq

namespace Fq2

/-- Of two opposite elements that are not zero, one is in the upper half. -/
theorem isUpperHalf_neg {a : Fq2} (ha : a ≠ 0) : (-a).isUpperHalf = !a.isUpperHalf := by
  by_cases him : a.im = 0
  · -- the real parts decide
    have hre : a.re ≠ 0 := fun hre => ha (Fq2.ext hre him)
    have hlower : ∀ b : Fq2, b.im = 0 → b.isUpperHalf = b.re.isUpperHalf := by
      intro b hb
      rw [isUpperHalf, hb]
      exact if_neg (by decide)
    have hneg : (-a).im = 0 := by rw [im_neg, him, neg_zero]
    rw [hlower a him, hlower (-a) hneg, re_neg, Fq.isUpperHalf_neg hre]
  · have hupper : ∀ b : Fq2, b.im ≠ 0 → b.isUpperHalf = b.im.isUpperHalf := by
      intro b hb
      exact if_pos (Nat.pos_of_ne_zero fun h => hb (Fq.ext h))
    have hneg : (-a).im ≠ 0 := by rwa [im_neg, neg_ne_zero]
    rw [hupper a him, hupper (-a) hneg, im_neg, Fq.isUpperHalf_neg him]

/-! ## Roots of unity -/

/-- The elements are the pairs of elements of the prime field. -/
def equivProd : Fq2 ≃ Fq × Fq where
  toFun a := (a.re, a.im)
  invFun p := ⟨p.1, p.2⟩
  left_inv _ := rfl
  right_inv _ := rfl

instance : Fintype Fq2 := Fintype.ofEquiv (Fq × Fq) equivProd.symm

theorem card_eq : Fintype.card Fq2 = q * q := by
  rw [Fintype.card_congr equivProd, Fintype.card_prod, Fq.card_eq]

theorem pow_order {a : Fq2} (ha : a ≠ 0) : a ^ (q * q - 1) = 1 := by
  rw [← card_eq]
  exact FiniteField.pow_card_sub_one_eq_one a ha

/-- Each of the first four powers squares to the power with twice its exponent. -/
theorem eighthRoots_mul_self :
    ∀ k ∈ [0, 1, 2, 3], eighthRoots.getD k 1 * eighthRoots.getD k 1 = eighthRoots.getD (2 * k) 1 := by
  decide +kernel

/-- The even powers are one, a root of minus one, minus one, and the other root of minus one. -/
theorem eighthRoots_even :
    eighthRoots.getD 0 1 = 1 ∧ eighthRoots.getD 2 1 * eighthRoots.getD 2 1 = -1 ∧
      eighthRoots.getD 4 1 = -1 ∧ eighthRoots.getD 6 1 = -eighthRoots.getD 2 1 := by
  decide +kernel

/-- Every fourth root of unity is one of the even powers. -/
theorem exists_eighthRoot_eq {z : Fq2} (hz : z ^ 4 = 1) :
    ∃ k ∈ [0, 1, 2, 3], z = eighthRoots.getD (2 * k) 1 := by
  obtain ⟨h0, h2, h4, h6⟩ := eighthRoots_even
  -- the square is one or minus one, and each has two roots
  have hsquares : (z * z - 1) * (z * z + 1) = 0 := by linear_combination hz
  rcases mul_eq_zero.mp hsquares with h | h
  · have hone : z * z = 1 * 1 := by linear_combination h
    rcases mul_self_eq_mul_self_iff.mp hone with h | h
    · exact ⟨0, by simp, h.trans h0.symm⟩
    · exact ⟨2, by simp, h.trans h4.symm⟩
  · have hminus : z * z = eighthRoots.getD 2 1 * eighthRoots.getD 2 1 := by
      rw [h2]
      exact eq_neg_of_add_eq_zero_left h
    rcases mul_self_eq_mul_self_iff.mp hminus with h | h
    · exact ⟨1, by simp, h⟩
    · exact ⟨3, by simp, h.trans h6.symm⟩

/-! ## Square roots -/

/-- The square of the candidate for a root of `y * y`: a fourth root of unity is left over. -/
theorem candidate_mul_self (y : Fq2) :
    power (y * y) ((q * q - 1 + 8) / 16) * power (y * y) ((q * q - 1 + 8) / 16) =
      y ^ ((q * q - 1) / 4) * (y * y) := by
  have hexp : 2 * ((q * q - 1 + 8) / 16 + (q * q - 1 + 8) / 16) = (q * q - 1) / 4 + 2 := by decide
  calc power (y * y) ((q * q - 1 + 8) / 16) * power (y * y) ((q * q - 1 + 8) / 16)
      = y ^ (2 * ((q * q - 1 + 8) / 16 + (q * q - 1 + 8) / 16)) := by
        rw [power_eq_pow, ← pow_add, ← pow_two y, ← pow_mul]
    _ = y ^ ((q * q - 1) / 4) * (y * y) := by rw [hexp, pow_add, pow_two y]

/-- What is found when the candidate's square is off by a power that is found among the even ones. -/
theorem squareRoot?_of_find? {v c : Fq2} {k : Nat} (hc : power v ((q * q - 1 + 8) / 16) = c)
    (hfind : [0, 1, 2, 3].find? (fun k => c * c / v = eighthRoots.getD (2 * k) 1) = some k) :
    squareRoot? v =
      some (if exceeds (c / eighthRoots.getD k 1) (-(c / eighthRoots.getD k 1))
        then c / eighthRoots.getD k 1 else -(c / eighthRoots.getD k 1)) := by
  subst hc
  unfold squareRoot?
  dsimp only
  rw [hfind]

/-- A candidate whose square is off by an even power is mended by the root of that power. -/
theorem mended_mul_self {v c : Fq2} (hv : v ≠ 0) {k : Nat} (hk : k ∈ [0, 1, 2, 3])
    (hunity : c * c / v = eighthRoots.getD (2 * k) 1) :
    c / eighthRoots.getD k 1 * (c / eighthRoots.getD k 1) = v := by
  have hne : ∀ k ∈ [0, 1, 2, 3], eighthRoots.getD (2 * k) 1 ≠ 0 := by decide +kernel
  have hc : c * c = eighthRoots.getD (2 * k) 1 * v := (div_eq_iff hv).mp hunity
  rw [div_mul_div_comm, eighthRoots_mul_self k hk, hc, mul_div_cancel_left₀ _ (hne k hk)]

/-- Of every square other than zero a root is found. -/
theorem squareRoot?_mul_self {y : Fq2} (hy : y ≠ 0) :
    ∃ r, squareRoot? (y * y) = some r ∧ (r = y ∨ r = -y) := by
  have hv : y * y ≠ 0 := mul_ne_zero hy hy
  have hz : (y ^ ((q * q - 1) / 4)) ^ 4 = 1 := by
    have hexp : (q * q - 1) / 4 * 4 = q * q - 1 := by decide
    rw [← pow_mul, hexp, pow_order hy]
  have hcandidate := candidate_mul_self y
  generalize hc : power (y * y) ((q * q - 1 + 8) / 16) = c at hcandidate
  generalize y ^ ((q * q - 1) / 4) = z at hz hcandidate
  have hunity : c * c / (y * y) = z := by rw [hcandidate, mul_div_cancel_right₀ z hv]
  -- whichever of the powers is found first will do
  obtain ⟨k, hfind⟩ : ∃ k, [0, 1, 2, 3].find?
      (fun k => c * c / (y * y) = eighthRoots.getD (2 * k) 1) = some k := by
    obtain ⟨k, hk, hzk⟩ := exists_eighthRoot_eq hz
    exact Option.isSome_iff_exists.mp (List.find?_isSome.mpr ⟨k, hk, by simpa [hunity] using hzk⟩)
  have hk : k ∈ [0, 1, 2, 3] := List.mem_of_find?_eq_some hfind
  have hpower := List.find?_some hfind
  rw [decide_eq_true_iff] at hpower
  have hroot := mended_mul_self hv hk hpower
  refine ⟨_, squareRoot?_of_find? hc hfind, ?_⟩
  -- the larger root is the one that was mended, or its opposite
  generalize c / eighthRoots.getD k 1 = r at hroot
  rcases mul_self_eq_mul_self_iff.mp hroot with rfl | rfl <;> split <;> simp

/-- The search finds no root of zero. -/
theorem squareRoot?_zero : squareRoot? 0 = none := by decide +kernel

/-- What is found is a root. -/
theorem mul_self_of_squareRoot? {v y : Fq2} (h : squareRoot? v = some y) : y * y = v := by
  have hv : v ≠ 0 := by
    rintro rfl
    rw [squareRoot?_zero] at h
    cases h
  obtain ⟨c, hc⟩ : ∃ c, power v ((q * q - 1 + 8) / 16) = c := ⟨_, rfl⟩
  unfold squareRoot? at h
  dsimp only at h
  rw [hc] at h
  split at h
  · cases h
  · next k hfind =>
    have hk : k ∈ [0, 1, 2, 3] := List.mem_of_find?_eq_some hfind
    have hpower := List.find?_some hfind
    rw [decide_eq_true_iff] at hpower
    -- mended by one of the eighth roots of one, the power is a root; the sign is chosen afterwards
    have hroot := mended_mul_self hv hk hpower
    generalize c / eighthRoots.getD k 1 = r at h hroot
    split at h
    · cases h
      exact hroot
    · cases h
      rw [neg_mul_neg]
      exact hroot

end Fq2

end AggSig
