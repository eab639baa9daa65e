/-
  Every byte string hashes to a point of the second curve.

  A field element is sent to a point of the auxiliary curve (`mapToAuxiliary_spec`).  Where the first
  abscissa has no ordinate the second one has: the right sides at the two differ by the fixed non-square
  times a square (`rightSide_second`), and of two non-squares the product is a square.

  In terms of `s = x + 6 - 6u` the denominators of the isogeny are `9 s²` and `27 s³`, and its image
  satisfies the equation of the second curve by an identity of polynomials in `s` and `u`
  (`onCurve_isogeny`).  What follows are a sum and a multiple, which stay on the curve.
-/
import AggSig.Proofs.Curve.Subgroup
import AggSig.Proofs.Field.Dodecic
import Mathlib.NumberTheory.LegendreSymbol.QuadraticChar.Basic

namespace AggSig

/-! ## Numbers of the extension -/

namespace Fq2

/-- The element `u`, whose square is minus one. -/
def u : Fq2 := ⟨0, 1⟩

/-- The square of the imaginary unit is minus one. -/
theorem u_mul_self : u * u = -1 := by decide

/-- A number is an element with no imaginary part. -/
theorem ofNats_natCast (n : Nat) : ofNats n 0 = n := by
  induction n with
  | zero => exact Nat.cast_zero.symm
  | succ n ih =>
    rw [Nat.cast_succ, ← ih]
    exact ofNats_add n 1 0 0

/-- A pair of numbers is a complex number. -/
theorem ofNats_eq (a b : Nat) : ofNats a b = a + b * u := by
  rw [← ofNats_natCast, ← ofNats_natCast]
  ext1
  · simp [ofNats, u, show Fq.ofNat 0 = 0 from rfl]
  · simp [ofNats, u, show Fq.ofNat 0 = 0 from rfl]

/-- Of two elements that are no squares the product is one. -/
theorem isSquare_mul {a b : Fq2} (ha : ¬ IsSquare a) (hb : ¬ IsSquare b) : IsSquare (a * b) := by
  have ha0 : a ≠ 0 := by
    rintro rfl
    exact ha IsSquare.zero
  have hb0 : b ≠ 0 := by
    rintro rfl
    exact hb IsSquare.zero
  rw [← quadraticChar_one_iff_isSquare (mul_ne_zero ha0 hb0), map_mul,
    quadraticChar_neg_one_iff_not_isSquare.mpr ha, quadraticChar_neg_one_iff_not_isSquare.mpr hb,
    neg_mul_neg, one_mul]

/-- A root is found of every square other than zero. -/
theorem exists_squareRoot? {v : Fq2} (hv : v ≠ 0) (h : IsSquare v) : ∃ y, squareRoot? v = some y := by
  obtain ⟨y, rfl⟩ := h
  obtain ⟨r, hr, -⟩ := squareRoot?_mul_self (left_ne_zero_of_mul hv)
  exact ⟨r, hr⟩

end Fq2

namespace ToCurve

open Fq2 (u)

/-! ## The auxiliary curve -/

/-- The constant of the map is no square. -/
theorem not_isSquare_nonSquare : ¬ IsSquare nonSquare := by
  rintro ⟨r, hr⟩
  have hr0 : r ≠ 0 := by
    rintro rfl
    rw [mul_zero] at hr
    exact absurd hr (by decide)
  -- a square to half the order of the units is one
  have hhalf : power nonSquare ((q * q - 1) / 2) = -1 := by decide +kernel
  have hexp : 2 * ((q * q - 1) / 2) = q * q - 1 := by decide
  rw [power_eq_pow, hr, ← pow_two, ← pow_mul, hexp, Fq2.pow_order hr0] at hhalf
  exact absurd hhalf (by decide)

/-- The auxiliary curve has a linear term. -/
theorem coefficientA_ne_zero : coefficientA ≠ 0 := by decide

/-- The abscissa that is taken where the formula for the first one divides by zero has an ordinate. -/
theorem exists_squareRoot?_exceptional :
    (Fq2.squareRoot? (rightSide (coefficientB / (nonSquare * coefficientA)))).isSome = true := by
  decide +kernel

/-- The right sides at the two abscissas differ by the cube of what the abscissas differ by. -/
theorem rightSide_second {zt : Fq2} (hsum : zt * zt + zt ≠ 0) :
    rightSide (zt * (-coefficientB / coefficientA * (1 + 1 / (zt * zt + zt)))) =
      zt ^ 3 * rightSide (-coefficientB / coefficientA * (1 + 1 / (zt * zt + zt))) := by
  have hA := coefficientA_ne_zero
  obtain ⟨hzt, hzt1⟩ : zt ≠ 0 ∧ zt + 1 ≠ 0 := by
    rw [← mul_ne_zero_iff]
    rwa [mul_add, mul_one]
  rw [rightSide, rightSide]
  generalize coefficientA = A at hA
  generalize coefficientB = B
  have hfactor : zt * zt + zt = zt * (zt + 1) := by ring
  rw [hfactor]
  field_simp
  ring

/-- Where the right side at the first abscissa is no square, that at the second one is. -/
theorem isSquare_cube_mul (t : Fq2) {v : Fq2} (hv : ¬ IsSquare v) :
    IsSquare ((nonSquare * (t * t)) ^ 3 * v) := by
  have hcube : (nonSquare * (t * t)) ^ 3 * v =
      nonSquare * v * (nonSquare * (t * t) * t * (nonSquare * (t * t) * t)) := by ring
  rw [hcube]
  exact (Fq2.isSquare_mul not_isSquare_nonSquare hv).mul (IsSquare.mul_self _)

/-- One of the two abscissas has the ordinate that is found. -/
theorem mapToAuxiliary_spec (t : Fq2) :
    (mapToAuxiliary t).2 * (mapToAuxiliary t).2 = rightSide (mapToAuxiliary t).1 := by
  -- the sign of the ordinate does not matter
  have hsign : ∀ (odd : Bool) (x y : Fq2), y * y = rightSide x →
      (if odd = isOdd y then y else -y) * (if odd = isOdd y then y else -y) = rightSide x := by
    intro odd x y h
    split
    · exact h
    · rw [neg_mul_neg]
      exact h
  rw [mapToAuxiliary]
  dsimp only
  generalize hzt : nonSquare * (t * t) = zt
  generalize hx : (if zt * zt + zt = 0 then coefficientB / (nonSquare * coefficientA)
    else -coefficientB / coefficientA * (1 + 1 / (zt * zt + zt))) = x1
  cases hroot : Fq2.squareRoot? (rightSide x1) with
  | some y => exact hsign _ x1 y (Fq2.mul_self_of_squareRoot? hroot)
  | none =>
    refine hsign _ _ _ ?_
    -- the exceptional abscissa has a root, so this is not it
    have hsum : zt * zt + zt ≠ 0 := by
      intro hzero
      rw [if_pos hzero] at hx
      have hsome := exists_squareRoot?_exceptional
      rw [hx, hroot] at hsome
      cases hsome
    rw [if_neg hsum] at hx
    have hsecond : rightSide (zt * x1) = zt ^ 3 * rightSide x1 := hx ▸ rightSide_second hsum
    by_cases hzero : rightSide x1 = 0
    · rw [hsecond, hzero, mul_zero, Fq2.squareRoot?_zero]
      exact mul_zero 0
    · have hfirst : ¬ IsSquare (rightSide x1) := by
        intro h
        obtain ⟨y, hy⟩ := Fq2.exists_squareRoot? hzero h
        cases hroot.symm.trans hy
      have hzt0 : zt ≠ 0 := by
        rintro rfl
        exact hsum (by ring)
      have hsquare : IsSquare (zt ^ 3 * rightSide x1) := hzt ▸ isSquare_cube_mul t hfirst
      obtain ⟨y, hy⟩ := Fq2.exists_squareRoot? (mul_ne_zero (pow_ne_zero 3 hzt0) hzero) hsquare
      rw [hsecond, hy]
      exact Fq2.mul_self_of_squareRoot? hy

/-! ## The isogeny -/

section

variable (s : Fq2)

/-- The abscissa that the denominators of the isogeny are powers of, as `s`. -/
def shifted : Fq2 := s - 6 + 6 * u

/-- The right side of the auxiliary equation, in the shifted abscissa. -/
theorem rightSide_shifted :
    rightSide (shifted s) = s ^ 3 - 18 * (1 - u) * s ^ 2 + 24 * u * s + 4 * (1 + u) := by
  simp only [rightSide, coefficientA, coefficientB, shifted, Fq2.ofNats_eq]
  push_cast
  linear_combination (108 * s + 216 * u + 792) * Fq2.u_mul_self

/-- The numerator of the isogeny's abscissa. -/
theorem xTop_shifted :
    cubic 1 (Fq2.ofNats 12 0 - Fq2.ofNats 0 12) (-Fq2.ofNats 0 24) (Fq2.ofNats 304 304) (shifted s) =
      s ^ 3 - 6 * (1 - u) * s ^ 2 + 48 * u * s + 16 * (1 + u) := by
  simp only [cubic, shifted, Fq2.ofNats_eq]
  push_cast
  linear_combination (-36 * s - 216 * u + 504) * Fq2.u_mul_self

/-- Its denominator is a square. -/
theorem xBottom_shifted :
    cubic 0 1 (Fq2.ofNats 12 0 - Fq2.ofNats 0 12) (-Fq2.ofNats 0 72) (shifted s) = s ^ 2 := by
  simp only [cubic, shifted, Fq2.ofNats_eq]
  push_cast
  linear_combination (-36) * Fq2.u_mul_self

/-- The numerator of the isogeny's ordinate. -/
theorem yTop_shifted :
    cubic 1 (Fq2.ofNats 18 0 - Fq2.ofNats 0 18) (-Fq2.ofNats 0 264) (-Fq2.ofNats 752 752) (shifted s) =
      s ^ 3 - 48 * u * s - 32 * (1 + u) := by
  simp only [cubic, shifted, Fq2.ofNats_eq]
  push_cast
  linear_combination (-108 * s - 432 * u - 288) * Fq2.u_mul_self

/-- Its denominator is a cube, of the same root. -/
theorem yBottom_shifted :
    cubic 1 (Fq2.ofNats 18 0 - Fq2.ofNats 0 18) (-Fq2.ofNats 0 216) (-Fq2.ofNats 432 432) (shifted s) =
      s ^ 3 := by
  simp only [cubic, shifted, Fq2.ofNats_eq]
  push_cast
  linear_combination (-108 * s - 432 * u) * Fq2.u_mul_self

end

/-- The numerators of the isogeny and the right side of the auxiliary curve, for any root of minus one. -/
theorem numerators_eq {R : Type} [CommRing R] {u : R} (hu : u * u = -1) (s : R) :
    (s ^ 3 - 18 * (1 - u) * s ^ 2 + 24 * u * s + 4 * (1 + u)) *
        (s ^ 3 - 48 * u * s - 32 * (1 + u)) ^ 2 =
      (s ^ 3 - 6 * (1 - u) * s ^ 2 + 48 * u * s + 16 * (1 + u)) ^ 3 + 729 * (4 + 4 * u) * s ^ 6 := by
  linear_combination (-108 * s ^ 7 - (216 * u + 2808) * s ^ 6 - (5184 * u - 1728) * s ^ 5 -
    1728 * (u + 1) * s ^ 4 - 27648 * u * s ^ 3 - 13824 * (u + 1) * s ^ 2) * hu

/-- The equation of the second curve, cleared of the denominators. -/
theorem image_eq {R : Type} [CommRing R] {s y b xTop yTop : R}
    (h : y * y * yTop ^ 2 = xTop ^ 3 + 729 * b * s ^ 6) :
    -y * yTop * (9 * s ^ 2) * (-y * yTop * (9 * s ^ 2)) * (9 * s ^ 2 * (27 * s ^ 3)) -
        xTop * (27 * s ^ 3) * (xTop * (27 * s ^ 3)) * (xTop * (27 * s ^ 3)) =
      b * (9 * s ^ 2 * (27 * s ^ 3) * (9 * s ^ 2 * (27 * s ^ 3)) * (9 * s ^ 2 * (27 * s ^ 3))) := by
  linear_combination 19683 * s ^ 9 * h

/-- The image of a point of the auxiliary curve is on the second curve. -/
theorem onCurve_isogeny {x y : Fq2} (h : y * y = rightSide x) : (isogeny x y).onCurve b₂ = true := by
  obtain ⟨s, rfl⟩ : ∃ s, x = shifted s := ⟨x + 6 - 6 * u, by rw [shifted]; ring⟩
  rw [rightSide_shifted] at h
  have hb : b₂ = 4 + 4 * u := Fq2.ofNats_eq 4 4
  have hnumerators := numerators_eq Fq2.u_mul_self s
  rw [← h] at hnumerators
  have h9 : Fq2.ofNats 9 0 = 9 := Fq2.ofNats_natCast 9
  have h27 : Fq2.ofNats 27 0 = 27 := Fq2.ofNats_natCast 27
  rw [isogeny, xTop_shifted, xBottom_shifted, yTop_shifted, yBottom_shifted, Point.onCurve,
    Bool.or_eq_true, decide_eq_true_iff, hb, h9, h27]
  exact .inr (image_eq hnumerators)

/-! ## Hashes -/

/-- Whatever is mapped lands on the curve. -/
theorem onCurve_mapToCurve (t : Fq2) : (mapToCurve t).onCurve b₂ = true := by
  have hspec := mapToAuxiliary_spec t
  rw [mapToCurve]
  generalize mapToAuxiliary t = point at hspec ⊢
  exact onCurve_isogeny hspec

/-- A multiple of a sum of points of the second curve is on it. -/
theorem onCurve_multiply_add {p r : Point Fq2} (hp : p.onCurve b₂ = true) (hr : r.onCurve b₂ = true)
    (n : Nat) : (Point.law.multiply (p.add r) n).onCurve b₂ = true := by
  have hsum : curve₂.reading.Valid (p.add r) := curve₂.reading.valid_add hp hr
  exact curve₂.reading.valid_multiply hsum n

/-- What a byte string hashes to is on the second curve. -/
theorem onCurve_hash (tag : Tag) (message : Bytes) : (hash tag message).onCurve b₂ = true := by
  rw [hash]
  obtain ⟨t, t'⟩ := elements message tag.bytes
  exact onCurve_multiply_add (onCurve_mapToCurve t) (onCurve_mapToCurve t') cofactorMultiple

end ToCurve

end AggSig
