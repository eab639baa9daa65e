/-
  One triple for every point.

  A point has many triples, and `Point.normal` picks one of them: the triple with `z = 1`, or the
  customary one at infinity.  Comparing triples by cross multiplication is comparing their normal forms
  (`same_iff_normal_eq`), except for the triple of zeros, which is the same as every triple and stands
  for nothing.

  A finite point whose order is prime to two and three has neither coordinate zero
  (`ShortCurve.coordinates_ne_zero`): a zero ordinate makes the tangent vertical, and a point with a
  zero abscissa is an inflection, whose double is its opposite.
-/
import AggSig.Proofs.Curve.Chord
import Mathlib.GroupTheory.OrderOfElement

namespace AggSig

namespace Point

variable {F : Type} [Field F] [DecidableEq F]

/-- The triple that is the same as every triple. -/
def degenerate : Point F := ⟨0, 0, 0⟩

/-- The triple that stands for every scaling of it. -/
def normal (p : Point F) : Point F :=
  if p.z = 0 then infinity else ⟨p.x / p.z, p.y / p.z, 1⟩

theorem isInfinity_iff {p : Point F} : p.isInfinity = true ↔ p.z = 0 :=
  decide_eq_true_iff

theorem normal_of_infinite {p : Point F} (hz : p.z = 0) : p.normal = infinity := if_pos hz

theorem normal_of_finite {p : Point F} (hz : p.z ≠ 0) : p.normal = ⟨p.x / p.z, p.y / p.z, 1⟩ :=
  if_neg hz

/-- The normal form is at infinity where the triple is. -/
@[simp] theorem isInfinity_normal (p : Point F) : p.normal.isInfinity = p.isInfinity := by
  by_cases hz : p.z = 0
  · rw [normal_of_infinite hz, isInfinity, isInfinity, hz]
    rfl
  · rw [normal_of_finite hz, isInfinity, isInfinity, decide_eq_decide]
    exact iff_of_false one_ne_zero hz

theorem normal_infinity : (infinity : Point F).normal = infinity := if_pos rfl

theorem normal_of_z_eq_one {p : Point F} (hz : p.z = 1) : p.normal = p := by
  rw [normal_of_finite (hz.trans_ne one_ne_zero), hz, div_one, div_one, ← hz]

@[simp] theorem normal_normal (p : Point F) : p.normal.normal = p.normal := by
  by_cases hz : p.z = 0
  · rw [normal_of_infinite hz, normal_infinity]
  · rw [normal_of_finite hz]
    exact normal_of_z_eq_one rfl

/-- The normal form of a finite triple that shows its affine coordinates. -/
theorem normal_mk (x y : F) {z : F} (hz : z ≠ 0) : normal ⟨x * z, y * z, z⟩ = ⟨x, y, 1⟩ := by
  rw [normal_of_finite hz, mul_div_cancel_right₀ x hz, mul_div_cancel_right₀ y hz]

/-- A normal form is not the triple of zeros. -/
theorem ne_degenerate_of_normal_eq {p : Point F} (h : p.normal = p) : p ≠ degenerate := by
  rintro rfl
  rw [normal_of_infinite rfl] at h
  exact one_ne_zero (congrArg Point.x h)

/-! ## Cross multiplication -/

/-- The comparison is made crosswise. -/
theorem same_iff {p r : Point F} :
    p.same r = true ↔ p.x * r.z = r.x * p.z ∧ p.y * r.z = r.y * p.z :=
  decide_eq_true_iff

/-- The triple of zeros cannot be told from any other. -/
theorem same_degenerate (p : Point F) : p.same degenerate = true := by
  rw [same_iff]
  simp [degenerate]

/-- A triple is the same as its normal form. -/
theorem same_normal (p : Point F) : p.normal.same p = true := by
  rw [same_iff]
  by_cases hz : p.z = 0
  · rw [normal_of_infinite hz, hz]
    simp [infinity]
  · rw [normal_of_finite hz]
    exact ⟨by rw [div_mul_cancel₀ _ hz, mul_one], by rw [div_mul_cancel₀ _ hz, mul_one]⟩

/-- What is the same as an infinite triple is infinite. -/
theorem z_eq_zero_of_same {p r : Point F} (hp : p ≠ degenerate) (hz : p.z = 0)
    (h : p.same r = true) : r.z = 0 := by
  obtain ⟨hx, hy⟩ := same_iff.mp h
  rw [hz, mul_zero] at hx hy
  by_contra hrz
  apply hp
  have hpx : p.x = 0 := (mul_eq_zero.mp hx).resolve_right hrz
  have hpy : p.y = 0 := (mul_eq_zero.mp hy).resolve_right hrz
  cases p
  simp only at hz hpx hpy
  rw [degenerate, hz, hpx, hpy]

theorem same_comm (p r : Point F) : p.same r = r.same p := by
  rw [Bool.eq_iff_iff, same_iff, same_iff]
  exact ⟨fun h => ⟨h.1.symm, h.2.symm⟩, fun h => ⟨h.1.symm, h.2.symm⟩⟩

/-- Two triples are the same exactly if they have one normal form, the triple of zeros apart. -/
theorem same_iff_normal_eq {p r : Point F} (hp : p ≠ degenerate) (hr : r ≠ degenerate) :
    p.same r = true ↔ p.normal = r.normal := by
  -- a triple at infinity on either side is compared with zeros, and only the triple of zeros passes for
  -- others
  by_cases hpz : p.z = 0
  · rw [normal_of_infinite hpz]
    constructor
    · intro h
      rw [normal_of_infinite (z_eq_zero_of_same hp hpz h)]
    · intro h
      have hrz : r.z = 0 := by
        by_contra hrz
        rw [normal_of_finite hrz] at h
        exact zero_ne_one (congrArg Point.z h)
      rw [same_iff, hpz, hrz]
      simp
  · by_cases hrz : r.z = 0
    · refine iff_of_false ?_ ?_
      · intro h
        rw [same_comm] at h
        exact hpz (z_eq_zero_of_same hr hrz h)
      · rw [normal_of_finite hpz, normal_of_infinite hrz]
        intro h
        exact one_ne_zero (congrArg Point.z h)
    · rw [same_iff, normal_of_finite hpz, normal_of_finite hrz, Point.mk.injEq,
        div_eq_div_iff hpz hrz, div_eq_div_iff hpz hrz]
      simp

/-- Triples with one normal form are the same, whichever they are. -/
theorem same_of_normal_eq {p r : Point F} (h : p.normal = r.normal) : p.same r = true := by
  by_cases hp : p = degenerate
  · rw [hp, same_comm]
    exact same_degenerate r
  · by_cases hr : r = degenerate
    · rw [hr]
      exact same_degenerate p
    · exact (same_iff_normal_eq hp hr).mpr h

end Point

/-! ## On a curve -/

/-- What two coprime numbers kill is zero. -/
theorem eq_zero_of_coprime {A : Type} [AddCommGroup A] {a : A} {m n : Nat} (hmn : m.Coprime n)
    (hm : m • a = 0) (hn : n • a = 0) : a = 0 := by
  have hdvd : addOrderOf a ∣ Nat.gcd m n :=
    Nat.dvd_gcd (addOrderOf_dvd_of_nsmul_eq_zero hm) (addOrderOf_dvd_of_nsmul_eq_zero hn)
  rw [hmn.gcd_eq_one, Nat.dvd_one] at hdvd
  exact AddMonoid.addOrderOf_eq_one_iff.mp hdvd

namespace ShortCurve

open WeierstrassCurve.Affine

variable {F : Type} [Field F] [DecidableEq F] (C : ShortCurve F)

/-- The normal form is on the curve and stands for the same point of it. -/
theorem normal_spec {p : Point F} (hp : p.onCurve C.b = true) :
    p.normal.onCurve C.b = true ∧ C.affine p.normal = C.affine p := by
  rcases C.cases_onCurve hp with hz | ⟨x, y, z, h, hz, rfl⟩
  · rw [Point.normal_of_infinite hz, C.affine_of_infinite hz]
    exact C.spec_of_infinite rfl
  · have hnormal : Point.normal ⟨x * z, y * z, z⟩ = ⟨x * 1, y * 1, 1⟩ := by
      rw [Point.normal_mk x y hz, mul_one, mul_one]
    rw [C.affine_mk hz h]
    exact C.spec_of_eq_mk hnormal one_ne_zero _

/-- Triples on the curve that stand for one point of it have one normal form. -/
theorem normal_eq_of_affine_eq {p r : Point F} (hp : p.onCurve C.b = true)
    (hr : r.onCurve C.b = true) (h : C.affine p = C.affine r) : p.normal = r.normal := by
  rcases C.cases_onCurve hp with hz | ⟨x, y, z, heq, hz, rfl⟩
  · rcases C.cases_onCurve hr with hz' | ⟨x', y', z', heq', hz', rfl⟩
    · rw [Point.normal_of_infinite hz, Point.normal_of_infinite hz']
    · rw [C.affine_of_infinite hz, C.affine_mk hz' heq'] at h
      exact absurd h.symm (Point.some_ne_zero _)
  · rcases C.cases_onCurve hr with hz' | ⟨x', y', z', heq', hz', rfl⟩
    · rw [C.affine_mk hz heq, C.affine_of_infinite hz'] at h
      exact absurd h (Point.some_ne_zero _)
    · rw [C.affine_mk hz heq, C.affine_mk hz' heq', Point.some.injEq] at h
      rw [Point.normal_mk x y hz, Point.normal_mk x' y' hz', h.1, h.2]

/-- A point with a zero ordinate is its own opposite. -/
theorem two_nsmul_of_y_eq_zero {x : F} (h : C.weierstrass.Nonsingular x 0) :
    2 • (Point.some x 0 h : C.weierstrass.Point) = 0 := by
  rw [two_nsmul]
  exact Point.add_self_of_Y_eq (by rw [negY_eq, neg_zero])

/-- A point with a zero abscissa is an inflection: three times the point is the identity. -/
theorem three_nsmul_of_x_eq_zero {y : F} (h : C.weierstrass.Nonsingular 0 y) :
    3 • (Point.some 0 y h : C.weierstrass.Point) = 0 := by
  have hy : y ≠ 0 := by
    rintro rfl
    exact C.b_ne_zero (by linear_combination -C.equation_iff.mp h.1)
  have hneg : y ≠ C.weierstrass.negY 0 y := by
    intro hself
    rw [negY_eq] at hself
    exact mul_ne_zero C.two_ne_zero hy (by linear_combination hself)
  -- the tangent is level, so that twice the point is its opposite
  have hslope : C.weierstrass.slope 0 0 y y = 0 := by
    rw [slope_of_Y_ne rfl hneg]
    simp [weierstrass]
  have hdouble : (Point.some 0 y h + Point.some 0 y h : C.weierstrass.Point) = -Point.some 0 y h := by
    rw [Point.add_self_of_Y_ne hneg, Point.neg_some]
    simp only [hslope, Point.some.injEq]
    simp [addX, addY, negAddY, negY, weierstrass]
  have hthree : (3 : Nat) = 2 + 1 := rfl
  rw [hthree, succ_nsmul, two_nsmul, hdouble, neg_add_cancel]

/-- A finite point that a number prime to two and three kills has no zero coordinate. -/
theorem coordinates_ne_zero {p : Point F} {n : Nat} (htwo : n.Coprime 2) (hthree : n.Coprime 3)
    (hp : p.onCurve C.b = true) (hz : p.z ≠ 0) (hkill : n • C.affine p = 0) : p.x ≠ 0 ∧ p.y ≠ 0 := by
  obtain ⟨x, y, z, h, hz, rfl⟩ := (C.cases_onCurve hp).resolve_left hz
  rw [C.affine_mk hz h] at hkill
  refine ⟨mul_ne_zero ?_ hz, mul_ne_zero ?_ hz⟩
  · rintro rfl
    exact Point.some_ne_zero _ (eq_zero_of_coprime hthree hkill (C.three_nsmul_of_x_eq_zero _))
  · rintro rfl
    exact Point.some_ne_zero _ (eq_zero_of_coprime htwo hkill (C.two_nsmul_of_y_eq_zero _))

end ShortCurve

end AggSig
