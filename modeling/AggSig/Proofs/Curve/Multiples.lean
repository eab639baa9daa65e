/-
  Multiples are repeated sums.

  A multiple is found by doubling and adding, and on the way a point at infinity may be doubled again and
  again, which ends in the triple of zeros.  Adding the copies one after the other never gets there, so the
  two do not end in one triple.  They end in triples that stand for one point, though: both are at infinity,
  or both are finite with the same affine coordinates (`Point.Agree`).  So the test for the subgroup asks
  whether as many copies as the group order add up to a point at infinity (`multiply_agrees`).

  Both are read as the multiple of what the point is read as (`Reading.coincide_multiply_sum`), whatever
  triple stands for it; the triple of zeros is read as any other triple at infinity.
-/
import AggSig.Proofs.Curve.Normal
import AggSig.Proofs.Curve.Subgroup
import AggSig.RawPoint

namespace AggSig

namespace GroupLaw.Reading

variable {P A : Type} [AddCommGroup A] {G : GroupLaw P} (R : Reading G A)

/-- Doubling and adding, and adding copies one after the other, give points that stand for one element. -/
theorem coincide_multiply_sum {p : P} (hp : R.Valid p) (n : Nat) :
    R.Coincide (G.multiply p n) (G.sum (List.replicate n p) G.identity) := by
  have hcopies : ∀ r ∈ List.replicate n p, R.Valid r := by
    intro r hr
    rwa [List.eq_of_mem_replicate hr]
  obtain ⟨hvalid, hread⟩ := R.sum_spec hcopies R.valid_identity
  refine ⟨R.valid_multiply hp n, hvalid, ?_⟩
  rw [R.read_multiply hp, hread, R.read_identity, zero_add, List.map_replicate, List.sum_replicate]

end GroupLaw.Reading

/-! ## Triples that stand for one point -/

/-- Both triples are at infinity, or both are finite and have the same affine coordinates. -/
def Point.Agree {F : Type} [Zero F] [Div F] (p r : Point F) : Prop :=
  p.z = 0 ∧ r.z = 0 ∨ p.z ≠ 0 ∧ r.z ≠ 0 ∧ p.normalize = r.normalize

instance {F : Type} [Zero F] [Div F] [DecidableEq F] (p r : Point F) : Decidable (p.Agree r) :=
  inferInstanceAs (Decidable (_ ∨ _))

section

variable {F : Type} [Field F] [DecidableEq F]

/-- Triples with one normal form stand for one point. -/
theorem Point.agree_of_normal_eq {p r : Point F} (h : p.normal = r.normal) : p.Agree r := by
  have hz : p.z = 0 ↔ r.z = 0 := by
    rw [← Point.isInfinity_iff, ← Point.isInfinity_iff, ← isInfinity_normal p, h, isInfinity_normal]
  by_cases hp : p.z = 0
  · exact .inl ⟨hp, hz.mp hp⟩
  · have hr : r.z ≠ 0 := fun hr => hp (hz.mpr hr)
    rw [normal_of_finite hp, normal_of_finite hr, Point.mk.injEq] at h
    exact .inr ⟨hp, hr, Prod.ext h.1 h.2.1⟩

/-- Where triples stand for one point, both are at infinity or neither is. -/
theorem Point.Agree.isInfinity_eq {p r : Point F} (h : p.Agree r) : p.isInfinity = r.isInfinity := by
  rcases h with ⟨hp, hr⟩ | ⟨hp, hr, -⟩
  · rw [isInfinity, isInfinity, hp, hr]
  · rw [isInfinity, isInfinity, decide_eq_decide]
    exact iff_of_false hp hr

namespace ShortCurve

variable (C : ShortCurve F)

theorem agree_of_coincide {p r : Point F} (h : C.reading.Coincide p r) : p.Agree r :=
  Point.agree_of_normal_eq (C.normal_eq_of_affine_eq h.left h.right h.read_eq)

/-- On a curve, a multiple and the sum of as many copies stand for one point. -/
theorem agree_multiply_sum {p : Point F} (hp : p.onCurve C.b = true) (n : Nat) :
    (Point.law.multiply p n).Agree (Point.law.sum (List.replicate n p) Point.infinity) :=
  C.agree_of_coincide (C.reading.coincide_multiply_sum hp n)

/-- A point has an order if that many copies of it add up to a point at infinity. -/
theorem hasOrder_eq_isInfinity_sum {p : Point F} (hp : p.onCurve C.b = true) (n : Nat) :
    Point.law.hasOrder n p = (Point.law.sum (List.replicate n p) Point.infinity).isInfinity :=
  (C.agree_multiply_sum hp n).isInfinity_eq

end ShortCurve

end

/-! ## Sums of raw points -/

namespace Suite

variable {P₁ P₂ T : Type} (S : Suite P₁ P₂ T)

theorem sumPoints_point₁ (ps : List P₁) (start : P₁) :
    S.sumPoints (ps.map .point₁) (.point₁ start) = .ok (.point₁ (S.group₁.sum ps start)) := by
  induction ps generalizing start with
  | nil => rfl
  | cons p ps ih => exact ih (S.group₁.add start p)

theorem sumPoints_point₂ (ps : List P₂) (start : P₂) :
    S.sumPoints (ps.map .point₂) (.point₂ start) = .ok (.point₂ (S.group₂.sum ps start)) := by
  induction ps generalizing start with
  | nil => rfl
  | cons p ps ih => exact ih (S.group₂.add start p)

end Suite

/-! ## The two groups -/

/-- In both groups, a multiple of a point on the curve and the sum of as many copies of the point, added
    onto the identity from left to right, stand for one point; and the test for the subgroup tells whether
    copies as many as the group order add up to a point at infinity. -/
theorem multiply_agrees :
    (∀ p : Point Fq, p.onCurve b₁ = true →
      (∀ n, ∃ total,
        bls12381.sumPoints (List.replicate n (.point₁ p)) (.point₁ bls12381.group₁.identity) =
          .ok (.point₁ total) ∧
        (bls12381.group₁.multiply p n).Agree total) ∧
      ∃ total,
        bls12381.sumPoints (List.replicate groupOrder (.point₁ p)) (.point₁ bls12381.group₁.identity) =
          .ok (.point₁ total) ∧
        bls12381.inSubgroup (.point₁ p) = .ok total.isInfinity) ∧
    ∀ p : Point Fq2, p.onCurve b₂ = true →
      (∀ n, ∃ total,
        bls12381.sumPoints (List.replicate n (.point₂ p)) (.point₂ bls12381.group₂.identity) =
          .ok (.point₂ total) ∧
        (bls12381.group₂.multiply p n).Agree total) ∧
      ∃ total,
        bls12381.sumPoints (List.replicate groupOrder (.point₂ p)) (.point₂ bls12381.group₂.identity) =
          .ok (.point₂ total) ∧
        bls12381.inSubgroup (.point₂ p) = .ok total.isInfinity := by
  constructor
  -- the sum of points adds the copies one by one, with the law of their group
  · intro p hp
    have hsum (n : Nat) := bls12381.sumPoints_point₁ (List.replicate n p) bls12381.group₁.identity
    simp only [List.map_replicate] at hsum
    exact ⟨fun n => ⟨_, hsum n, curve₁.agree_multiply_sum hp n⟩,
      _, hsum groupOrder, congrArg Except.ok (curve₁.hasOrder_eq_isInfinity_sum hp groupOrder)⟩
  · intro p hp
    have hsum (n : Nat) := bls12381.sumPoints_point₂ (List.replicate n p) bls12381.group₂.identity
    simp only [List.map_replicate] at hsum
    exact ⟨fun n => ⟨_, hsum n, curve₂.agree_multiply_sum hp n⟩,
      _, hsum groupOrder, congrArg Except.ok (curve₂.hasOrder_eq_isInfinity_sum hp groupOrder)⟩

/-- A point of the first curve with a zero abscissa, whose double is its opposite. -/
def inflection : Point Fq := ⟨0, Fq.ofNat 2, 1⟩

/-- Six copies of an inflection cancel out.  Four times the identity is the triple of zeros, which no sum of
    copies of it is, and both are at infinity. -/
theorem multiply_agrees_inflection :
    inflection.onCurve b₁ = true ∧ Point.infinity.onCurve b₁ = true ∧
    (bls12381.group₁.multiply inflection 6).isInfinity = true ∧
    bls12381.group₁.multiply Point.infinity 4 = Point.degenerate ∧
    (∃ total,
      bls12381.sumPoints (List.replicate 6 (.point₁ inflection)) (.point₁ Point.infinity) =
        .ok (.point₁ total) ∧
      (bls12381.group₁.multiply inflection 6).Agree total) ∧
    ∃ total,
      bls12381.sumPoints (List.replicate 4 (.point₁ Point.infinity)) (.point₁ Point.infinity) =
        .ok (.point₁ total) ∧
      (bls12381.group₁.multiply Point.infinity 4).Agree total :=
  ⟨by decide +kernel, by decide +kernel, by decide +kernel, by decide +kernel,
    (multiply_agrees.1 inflection (by decide +kernel)).1 6,
    (multiply_agrees.1 Point.infinity (by decide +kernel)).1 4⟩

end AggSig
