/-
  The pairings with opposite points cancel.

  Evaluated at opposite points, the lines through two points differ in the sign of `w` only, up to a sign
  in front (`line_neg`), and so does what the loop makes of them (`miller_neg`).  The product of both
  values is therefore even, and the final exponentiation makes it one (`finalExponentiation_opposite`),
  unless it has no inverse.
-/
import AggSig.Curve.Pairing
import AggSig.Proofs.Field.Even

namespace AggSig.Pairing

/-- The second fraction is the first one with `w` replaced by `-w`, up to a sign. -/
def Fraction.Conjugate (f g : Fraction) : Prop :=
  ∃ s : Fq2, s * s = 1 ∧ g.top = f.top.conj.scale s ∧ g.bottom = f.bottom

namespace Fraction.Conjugate

variable {f f' g g' : Fraction}

/-- Products of conjugate fractions are conjugate. -/
theorem mul (hf : f.Conjugate f') (hg : g.Conjugate g') : (f.mul g).Conjugate (f'.mul g') := by
  obtain ⟨s, hs, htop, hbottom⟩ := hf
  obtain ⟨t, ht, htop', hbottom'⟩ := hg
  refine ⟨s * t, by rw [mul_mul_mul_comm, hs, ht, one_mul], ?_, ?_⟩
  · show f'.top * g'.top = (f.top * g.top).conj.scale (s * t)
    rw [htop, htop', Fq12.scale_mul_scale, Fq12.conj_mul]
  · show f'.bottom * g'.bottom = f.bottom * g.bottom
    rw [hbottom, hbottom']

/-- Conjugate fractions have conjugate values, up to the sign. -/
theorem value_eq (h : f.Conjugate g) : ∃ s : Fq2, s * s = 1 ∧ g.value = f.value.conj.scale s := by
  obtain ⟨s, hs, htop, hbottom⟩ := h
  refine ⟨s, hs, ?_⟩
  rw [Fraction.value, Fraction.value, htop, hbottom, Fq12.conj_scale, Fq12.scale_scale,
    Fq12.scale_scale, mul_comm]

end Fraction.Conjugate

/-- A line, evaluated at opposite points. -/
theorem line_neg (p s : Point Fq2) (t : Point Fq) : (line p s t).Conjugate (line p s t.neg) := by
  have hscale : ∀ a : Fq2, a.scale (-t.y) = -a.scale t.y := by
    intro a
    ext1 <;> simp [Fq2.scale]
  -- the ordinate stands in the constant term only, and the other terms of a sloped line are odd
  have hsloped : ∀ slopeTop slopeBottom,
      (sloped slopeTop slopeBottom p t).Conjugate (sloped slopeTop slopeBottom p t.neg) := by
    intro slopeTop slopeBottom
    refine ⟨-1, by ring, ?_, rfl⟩
    ext1 <;> simp [sloped, Point.neg, Fq12.conj, Fq12.scale, hscale, Fq2.scaleByXi_eq]
  have hvertical : (vertical p t).Conjugate (vertical p t.neg) := by
    refine ⟨1, by ring, ?_, rfl⟩
    ext1 <;> simp [vertical, Point.neg, Fq12.conj, Fq12.scale]
  simp only [line]
  split
  · exact hsloped _ _
  · split
    · exact hsloped _ _
    · exact hvertical

/-- The multiple of `Q` does not depend on where the lines are evaluated. -/
theorem step_snd (Q : Point Fq2) (P : Point Fq) (f : Fraction) (R : Point Fq2) (digit : Bool) :
    (step Q P (f, R) digit).2 = if digit then R.double.add Q else R.double := by
  cases digit <;> rfl

/-- One digit of the loop at opposite points. -/
theorem step_neg (Q : Point Fq2) (P : Point Fq) {f f' : Fraction} (h : f.Conjugate f')
    (R : Point Fq2) (digit : Bool) :
    (step Q P (f, R) digit).1.Conjugate (step Q P.neg (f', R) digit).1 := by
  have hdoubled := (h.mul h).mul (line_neg R R P)
  cases digit with
  | false => exact hdoubled
  | true => exact hdoubled.mul (line_neg R.double Q P)

/-- From conjugate fractions on, the loop for the opposite point gives conjugate ones. -/
theorem foldl_step_neg (Q : Point Fq2) (P : Point Fq) (digits : List Bool) {f f' : Fraction}
    (h : f.Conjugate f') (R : Point Fq2) :
    (digits.foldl (step Q P) (f, R)).1.Conjugate (digits.foldl (step Q P.neg) (f', R)).1 := by
  induction digits generalizing f f' R with
  | nil => exact h
  | cons digit rest ih =>
    -- both loops go on with the same multiple of `Q`
    have hstate : step Q P.neg (f', R) digit =
        ((step Q P.neg (f', R) digit).1, (step Q P (f, R) digit).2) :=
      Prod.ext rfl ((step_snd Q P.neg f' R digit).trans (step_snd Q P f R digit).symm)
    rw [List.foldl_cons, List.foldl_cons, hstate]
    exact ih (step_neg Q P h R digit) _

/-- The Miller values of a point with opposite points. -/
theorem miller_neg (Q : Point Fq2) (P : Point Fq) :
    ∃ s : Fq2, s * s = 1 ∧ miller Q P.neg = (miller Q P).conj.scale s := by
  have hone : Fraction.Conjugate ⟨1, 1⟩ ⟨1, 1⟩ := by
    refine ⟨1, one_mul 1, ?_, rfl⟩
    ext1 <;> simp [Fq12.conj, Fq12.scale]
  exact (foldl_step_neg Q P _ hone Q).value_eq

/-- The pairings of a point with opposite points multiply to one. -/
theorem finalExponentiation_opposite {Q : Point Fq2} {P : Point Fq}
    (hnorm : (miller Q P * (miller Q P).conj).evenNorm ≠ 0) :
    finalExponentiation (miller Q P * miller Q P.neg) = 1 := by
  obtain ⟨s, hs, hneg⟩ := miller_neg Q P
  -- the exponent is a multiple of `q⁶ - 1`, which is even and takes the sign away as well
  have hsign : s ^ (q ^ 6 - 1) = 1 := by
    have hexp : q ^ 6 - 1 = 2 * ((q ^ 6 - 1) / 2) := by decide
    rw [hexp, pow_mul, pow_two, hs, one_pow]
  have hone : (miller Q P * miller Q P.neg) ^ (q ^ 6 - 1) = 1 := by
    rw [hneg, Fq12.scale_eq, mul_left_comm, mul_pow, ← map_pow, hsign, map_one, one_mul]
    exact (Fq12.isEven_mul_conj _).pow_eq_one hnorm
  have hexp : (Nat.pow q 12 - 1) / groupOrder = (q ^ 6 - 1) * ((q ^ 6 + 1) / groupOrder) := by decide
  rw [finalExponentiation, power_eq_pow, hexp, pow_mul, hone, one_pow]

end AggSig.Pairing
