/-
  Projective triples compute the group law of their curve.

  `ShortCurve.affine` is the point of the curve `y² = x³ + b` that a triple stands for, in the group
  that Mathlib defines on the points.  The tangent and the chord construction on triples are the law of
  that group, with all their special cases; together this is `ShortCurve.reading`.

  The proofs put a finite triple in the form `(x · z, y · z, z)`.  What a construction gives for such
  triples is of that form again, with the affine sum in place of `x` and `y`; that is an identity of
  polynomials in the coordinates and in the slope, once the slope is known by its defining equation.
-/
import AggSig.Proofs.Curve.Reading
import Mathlib.AlgebraicGeometry.EllipticCurve.Affine.Point
import Mathlib.Tactic.LinearCombination

namespace AggSig

open WeierstrassCurve.Affine

/-- A curve `y² = x³ + b` without singular points. -/
structure ShortCurve (F : Type) [Field F] where
  b : F
  b_ne_zero : b ≠ 0
  two_ne_zero : (2 : F) ≠ 0
  three_ne_zero : (3 : F) ≠ 0

namespace ShortCurve

variable {F : Type} [Field F] (C : ShortCurve F)

/-- The curve among the curves in Weierstrass form. -/
def weierstrass : WeierstrassCurve.Affine F := ⟨0, 0, 0, 0, C.b⟩

/-- The points of the curve are those of the short equation. -/
theorem equation_iff {x y : F} : C.weierstrass.Equation x y ↔ y * y = x * x * x + C.b := by
  rw [WeierstrassCurve.Affine.equation_iff]
  simp only [weierstrass, zero_mul, add_zero]
  constructor <;> intro h <;> linear_combination h

/-- Every solution of the equation is a point of the group. -/
theorem nonsingular_of_eq {x y : F} (h : y * y = x * x * x + C.b) :
    C.weierstrass.Nonsingular x y := by
  rw [nonsingular_iff']
  refine ⟨C.equation_iff.mpr h, ?_⟩
  simp only [weierstrass, zero_mul, add_zero, mul_zero, zero_sub, neg_ne_zero]
  by_cases hx : x = 0
  · -- then `y * y` is `b`
    right
    refine mul_ne_zero C.two_ne_zero ?_
    rintro rfl
    exact C.b_ne_zero (by linear_combination -h - x * x * hx)
  · left
    exact mul_ne_zero C.three_ne_zero (pow_ne_zero 2 hx)

theorem negY_eq (x y : F) : C.weierstrass.negY x y = -y := by
  simp [negY, weierstrass]

variable [DecidableEq F]

/-- A triple over a denominator is on the curve if its affine coordinates are. -/
theorem onCurve_mk (x y : F) {z : F} (hz : z ≠ 0) :
    Point.onCurve C.b ⟨x * z, y * z, z⟩ = true ↔ y * y = x * x * x + C.b := by
  have hz3 : z * z * z ≠ 0 := mul_ne_zero (mul_ne_zero hz hz) hz
  simp only [Point.onCurve, Point.isInfinity, hz, decide_false, Bool.false_or, decide_eq_true_iff]
  constructor
  · intro h
    apply mul_right_cancel₀ hz3
    linear_combination h
  · intro h
    linear_combination (z * z * z) * h

omit [DecidableEq F] in
/-- A finite triple, in the form that shows its affine coordinates. -/
theorem exists_eq_mk (p : Point F) (hz : p.z ≠ 0) : ∃ x y, p = ⟨x * p.z, y * p.z, p.z⟩ := by
  refine ⟨p.x / p.z, p.y / p.z, ?_⟩
  rw [div_mul_cancel₀ _ hz, div_mul_cancel₀ _ hz]

/-- The point of the curve that a triple stands for; for a triple off the curve, the identity. -/
def affine (p : Point F) : C.weierstrass.Point :=
  if h : p.z ≠ 0 ∧ p.y / p.z * (p.y / p.z) = p.x / p.z * (p.x / p.z) * (p.x / p.z) + C.b then
    .some (p.x / p.z) (p.y / p.z) (C.nonsingular_of_eq h.2)
  else 0

theorem affine_of_infinite {p : Point F} (hz : p.z = 0) : C.affine p = 0 := by
  rw [affine, dif_neg (fun h => h.1 hz)]

/-- A triple over a denominator stands for the point that has its affine coordinates. -/
theorem affine_mk {x y z : F} (hz : z ≠ 0) (h : y * y = x * x * x + C.b) :
    C.affine ⟨x * z, y * z, z⟩ = .some x y (C.nonsingular_of_eq h) := by
  have hx : x * z / z = x := mul_div_cancel_right₀ x hz
  have hy : y * z / z = y := mul_div_cancel_right₀ y hz
  have hcond : (⟨x * z, y * z, z⟩ : Point F).z ≠ 0 ∧
      y * z / z * (y * z / z) = x * z / z * (x * z / z) * (x * z / z) + C.b := by
    rw [hx, hy]; exact ⟨hz, h⟩
  rw [affine, dif_pos hcond]
  simp only [Point.some.injEq]
  exact ⟨hx, hy⟩

/-- A triple that stands for a given finite point is on the curve. -/
theorem spec_of_eq_mk {p : Point F} {x y z : F} (hp : p = ⟨x * z, y * z, z⟩) (hz : z ≠ 0)
    (hns : C.weierstrass.Nonsingular x y) :
    p.onCurve C.b = true ∧ C.affine p = .some x y hns := by
  have heq := C.equation_iff.mp hns.1
  subst hp
  exact ⟨(C.onCurve_mk x y hz).mpr heq, C.affine_mk hz heq⟩

theorem spec_of_infinite {p : Point F} (hz : p.z = 0) :
    p.onCurve C.b = true ∧ C.affine p = 0 := by
  refine ⟨?_, C.affine_of_infinite hz⟩
  simp [Point.onCurve, Point.isInfinity, hz]

/-- A triple on the curve is at infinity or stands for a finite point. -/
theorem cases_onCurve {p : Point F} (hp : p.onCurve C.b = true) :
    p.z = 0 ∨ ∃ x y z, y * y = x * x * x + C.b ∧ z ≠ 0 ∧ p = ⟨x * z, y * z, z⟩ := by
  by_cases hz : p.z = 0
  · exact .inl hz
  · obtain ⟨x, y, hxy⟩ := exists_eq_mk p hz
    rw [hxy] at hp
    exact .inr ⟨x, y, p.z, (C.onCurve_mk x y hz).mp hp, hz, hxy⟩

/-! ## The tangent construction -/

omit [DecidableEq F] in
theorem double_of_infinite {p : Point F} (hz : p.z = 0) : p.double.z = 0 := by
  simp [Point.double, Point.twice, hz]

omit [DecidableEq F] in
/-- The tangent construction at a finite point, in terms of the slope `l` of the tangent. -/
theorem double_mk (x y z l : F) (hl : l * (2 * y) = 3 * x ^ 2) :
    Point.double ⟨x * z, y * z, z⟩ =
      ⟨C.weierstrass.addX x x l * (8 * y ^ 3 * z ^ 6),
        C.weierstrass.addY x x y l * (8 * y ^ 3 * z ^ 6), 8 * y ^ 3 * z ^ 6⟩ := by
  simp only [Point.double, Point.twice, addX, addY, negAddY, negY, weierstrass, Point.mk.injEq]
  refine ⟨?_, ?_, ?_⟩
  -- the multiples of `hl` that turn the slope into its defining ratio
  · linear_combination (-2 * y * z ^ 6 * (3 * x ^ 2 + 2 * l * y)) * hl
  · linear_combination
      z ^ 6 * ((2 * l * y) ^ 2 + 2 * l * y * (3 * x ^ 2) + 9 * x ^ 4 - 12 * x * y ^ 2) * hl
  · ring

/-- Doubling a triple on the curve is doubling the point that it stands for. -/
theorem double_spec {p : Point F} (hp : p.onCurve C.b = true) :
    p.double.onCurve C.b = true ∧ C.affine p.double = C.affine p + C.affine p := by
  rcases C.cases_onCurve hp with hz | ⟨x, y, z, h, hz, rfl⟩
  · rw [C.affine_of_infinite hz, add_zero]
    exact C.spec_of_infinite (double_of_infinite hz)
  · rw [C.affine_mk hz h]
    by_cases hy : y = 0
    · -- a point that is its own reflection: the tangent is vertical
      subst hy
      rw [WeierstrassCurve.Affine.Point.add_self_of_Y_eq (by rw [negY_eq, neg_zero])]
      exact C.spec_of_infinite (by simp [Point.double, Point.twice])
    · have h2y : 2 * y ≠ 0 := mul_ne_zero C.two_ne_zero hy
      have hneg : y ≠ C.weierstrass.negY x y := by
        intro hself
        rw [negY_eq] at hself
        exact h2y (by linear_combination hself)
      have hl : C.weierstrass.slope x x y y * (2 * y) = 3 * x ^ 2 := by
        rw [slope_of_Y_ne rfl hneg, negY_eq]
        simp only [weierstrass]
        rw [sub_neg_eq_add, ← two_mul, div_mul_cancel₀ _ h2y]
        ring
      have h8 : (8 : F) ≠ 0 := by
        have : (8 : F) = 2 ^ 3 := by norm_num
        rw [this]
        exact pow_ne_zero 3 C.two_ne_zero
      have hz3 : 8 * y ^ 3 * z ^ 6 ≠ 0 :=
        mul_ne_zero (mul_ne_zero h8 (pow_ne_zero 3 hy)) (pow_ne_zero 6 hz)
      rw [WeierstrassCurve.Affine.Point.add_self_of_Y_ne hneg]
      exact C.spec_of_eq_mk (C.double_mk x y z _ hl) hz3 _

/-! ## The chord construction -/

omit [DecidableEq F] in
/-- Comparing the coordinates crosswise compares them without their denominators. -/
theorem cross_eq (a z z' : F) : a * z' * z = a * z * z' := by ring

omit [DecidableEq F] in
/-- The construction compares coordinates after multiplying across, which tells them apart. -/
theorem cross_ne {a a' z z' : F} (hz : z ≠ 0) (hz' : z' ≠ 0) (ha : a ≠ a') :
    a' * z' * z ≠ a * z * z' := by
  intro heq
  apply ha
  apply mul_right_cancel₀ (mul_ne_zero hz hz')
  linear_combination -heq

/-- The chord construction at finite points with different abscissas, in terms of the slope `l` of the
    chord. -/
theorem add_mk {x y z x' y' z' : F} (hz : z ≠ 0) (hz' : z' ≠ 0) (hx : x ≠ x') (l : F)
    (hl : l * (x - x') = y - y') :
    Point.add ⟨x * z, y * z, z⟩ ⟨x' * z', y' * z', z'⟩ =
      ⟨C.weierstrass.addX x x' l * (((x' - x) * (z * z')) ^ 3 * (z * z')),
        C.weierstrass.addY x x' y l * (((x' - x) * (z * z')) ^ 3 * (z * z')),
        ((x' - x) * (z * z')) ^ 3 * (z * z')⟩ := by
  have hv : x' * z' * z ≠ x * z * z' := cross_ne hz hz' hx
  -- with `y'` given by the slope, both sides are polynomials in `x`, `x'`, `y`, `l`, `z` and `z'`
  obtain rfl : y' = y - l * (x - x') := by linear_combination hl
  simp only [Point.add, hz, hz', or_self, if_false, hv, Point.twice, addX, addY, negAddY, negY,
    weierstrass, Point.mk.injEq]
  refine ⟨?_, ?_, ?_⟩ <;> ring

/-- For equal points the tangent is taken instead. -/
theorem add_mk_self (x y : F) {z z' : F} (hz : z ≠ 0) (hz' : z' ≠ 0) :
    Point.add ⟨x * z, y * z, z⟩ ⟨x * z', y * z', z'⟩ = Point.double ⟨x * z, y * z, z⟩ := by
  simp only [Point.add, hz, hz', or_self, if_false, cross_eq x, cross_eq y, if_true]

/-- The chord through points with one abscissa and different ordinates meets infinity. -/
theorem add_mk_of_ne (x : F) {y y' z z' : F} (hz : z ≠ 0) (hz' : z' ≠ 0) (hy : y ≠ y') :
    Point.add ⟨x * z, y * z, z⟩ ⟨x * z', y' * z', z'⟩ = Point.infinity := by
  simp only [Point.add, hz, hz', or_self, if_false, cross_eq x, cross_ne hz hz' hy, if_true]

omit [DecidableEq F] in
/-- Points of the curve with one abscissa and different ordinates are opposite. -/
theorem eq_negY {x y y' : F} (h : y * y = x * x * x + C.b) (h' : y' * y' = x * x * x + C.b)
    (hy : y ≠ y') : y = C.weierstrass.negY x y' := by
  have hprod : (y - y') * (y + y') = 0 := by linear_combination h - h'
  have hsum : y + y' = 0 := (mul_eq_zero.mp hprod).resolve_left (sub_ne_zero.mpr hy)
  rw [negY_eq]
  exact eq_neg_of_add_eq_zero_left hsum

/-- Adding triples on the curve is adding the points that they stand for. -/
theorem add_spec {p r : Point F} (hp : p.onCurve C.b = true) (hr : r.onCurve C.b = true) :
    (p.add r).onCurve C.b = true ∧ C.affine (p.add r) = C.affine p + C.affine r := by
  -- infinity on either side, one abscissa, or two: the cases of the definition
  by_cases hrz : r.z = 0
  · have hadd : p.add r = p := by simp [Point.add, hrz]
    rw [hadd, C.affine_of_infinite hrz, add_zero]
    exact ⟨hp, rfl⟩
  by_cases hpz : p.z = 0
  · have hadd : p.add r = r := by simp [Point.add, hpz, hrz]
    rw [hadd, C.affine_of_infinite hpz, zero_add]
    exact ⟨hr, rfl⟩
  obtain ⟨x, y, z, h, hz, rfl⟩ := (C.cases_onCurve hp).resolve_left hpz
  obtain ⟨x', y', z', h', hz', rfl⟩ := (C.cases_onCurve hr).resolve_left hrz
  have hzz : z * z' ≠ 0 := mul_ne_zero hz hz'
  rw [C.affine_mk hz h, C.affine_mk hz' h']
  by_cases hx : x = x'
  · subst hx
    by_cases hy : y = y'
    · subst hy
      rw [add_mk_self x y hz hz', ← C.affine_mk hz h]
      exact C.double_spec hp
    · rw [add_mk_of_ne x hz hz' hy, WeierstrassCurve.Affine.Point.add_of_Y_eq rfl (C.eq_negY h h' hy)]
      exact C.spec_of_infinite rfl
  -- two abscissas: the chord has a slope, and the sum a denominator that is not zero
  · have hl : C.weierstrass.slope x x' y y' * (x - x') = y - y' := by
      rw [slope_of_X_ne hx, div_mul_cancel₀ _ (sub_ne_zero.mpr hx)]
    have hz3 : ((x' - x) * (z * z')) ^ 3 * (z * z') ≠ 0 :=
      mul_ne_zero (pow_ne_zero 3 (mul_ne_zero (sub_ne_zero.mpr (Ne.symm hx)) hzz)) hzz
    rw [WeierstrassCurve.Affine.Point.add_of_X_ne hx]
    exact C.spec_of_eq_mk (C.add_mk hz hz' hx _ hl) hz3 _

/-! ## The reading -/

/-- A triple on the curve is at infinity exactly if it stands for zero. -/
theorem isInfinity_iff {p : Point F} (hp : p.onCurve C.b = true) :
    p.isInfinity = true ↔ C.affine p = 0 := by
  rw [Point.isInfinity, decide_eq_true_iff]
  rcases C.cases_onCurve hp with hz | ⟨x, y, z, h, hz, rfl⟩
  · exact iff_of_true hz (C.affine_of_infinite hz)
  · rw [C.affine_mk hz h]
    exact iff_of_false hz (WeierstrassCurve.Affine.Point.some_ne_zero _)

/-- The reflection stands for the inverse. -/
theorem neg_spec {p : Point F} (hp : p.onCurve C.b = true) :
    p.neg.onCurve C.b = true ∧ C.affine p.neg = -C.affine p := by
  rcases C.cases_onCurve hp with hz | ⟨x, y, z, h, hz, rfl⟩
  · rw [C.affine_of_infinite hz, neg_zero]
    exact C.spec_of_infinite hz
  · rw [C.affine_mk hz h, WeierstrassCurve.Affine.Point.neg_some]
    refine C.spec_of_eq_mk ?_ hz _
    rw [Point.neg, negY_eq, neg_mul]

/-- Triples on the curve, read as points of the curve. -/
def reading : GroupLaw.Reading (Point.law (F := F)) C.weierstrass.Point where
  Valid p := p.onCurve C.b = true
  read := C.affine
  valid_identity := (C.spec_of_infinite rfl).1
  read_identity := (C.spec_of_infinite rfl).2
  valid_double hp := (C.double_spec hp).1
  read_double hp := (C.double_spec hp).2
  valid_add hp hr := (C.add_spec hp hr).1
  read_add hp hr := (C.add_spec hp hr).2
  isIdentity_iff := C.isInfinity_iff

end ShortCurve

end AggSig
