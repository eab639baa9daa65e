/-
  Elements that nothing tells apart.

  Two elements are *alike* if they compare as the same and are written in the same way in both forms.
  The triple of zeros compares as the same as every triple, so sameness alone would say too little.

  An `Interpretation` is a reading of the points of a group that what is decoded and what is written
  respect: decoded points are valid, and valid points that stand for one element are alike
  (`Suite.alike_of_coincide`).  The members of the subgroups have one for each family
  (`Backend.interpretation`), whatever the hash and the pairing are.
-/
import AggSig.Proofs.Element.Faithful
import AggSig.Proofs.Pairing.Laws

namespace AggSig

/-- A reading of the points of a group under which decoded points are valid, and points that stand for
    one element are the same and written in the same way. -/
structure Group.Interpretation {P : Type} (G : Group P) (side : Side) (A : Type)
    [AddCommGroup A] extends GroupLaw.Reading G.toGroupLaw A where
  valid_of_decode {form : Form} {data : Bytes} {allowIdentity : Bool} {p : P} :
    G.decode form data allowIdentity = .ok p → Valid p
  same_of_coincide {p r : P} : toReading.Coincide p r → G.same p r = true
  exists_encode (form : Form) {p r : P} : toReading.Coincide p r →
    ∃ data, G.encode form p = .ok data ∧ G.encode form r = .ok data ∧
      data.length = side.width form

namespace Suite

variable {P₁ P₂ T : Type} (S : Suite P₁ P₂ T)

/-- Two elements that compare as the same and are written in the same way. -/
structure Alike (e e' : Element P₁ P₂) : Prop where
  same : S.sameElement e e' = true
  exists_toForm (form : Form) : ∃ w, S.toForm form e = .ok w ∧ S.toForm form e' = .ok w

variable {S} {f : Family} {A : Type} [AddCommGroup A]
  (I : (S.group f).Interpretation f.side A)

include I

/-- Points that stand for one element make elements that are alike. -/
theorem alike_of_coincide {p r : f.Point P₁ P₂} (h : I.Coincide p r) :
    S.Alike (.of f p) (.of f r) := by
  constructor
  · rw [sameElement_of]
    exact I.same_of_coincide h
  · intro form
    obtain ⟨data, hp, hr, hlength⟩ := I.exists_encode form h
    have hwire : Wire.ofBytes f form data = .ok ⟨f, form, data, hlength⟩ := dif_pos hlength
    refine ⟨⟨f, form, data, hlength⟩, ?_, ?_⟩
    · rw [toForm_of, hp]
      exact hwire
    · rw [toForm_of, hr]
      exact hwire

/-- What a value is taken as is valid, if it is decoded or was valid before. -/
theorem valid_of_coerce {v : Value P₁ P₂} {allowIdentity : Bool} {p : f.Point P₁ P₂}
    (hv : ∀ r, v = .element (.of f r) → I.Valid r) (h : S.coerce f v allowIdentity = .ok p) :
    I.Valid p :=
  S.good_of_coerce I.valid_of_decode hv h

/-- The points of a list of such values are valid. -/
theorem valid_of_coerceAll {members : List (Value P₁ P₂)} {points : List (f.Point P₁ P₂)}
    (hmembers : ∀ r, .element (.of f r) ∈ members → I.Valid r)
    (h : S.coerceAll f members = .ok points) : ∀ p ∈ points, I.Valid p := by
  intro p hp
  obtain ⟨v, hv, hcoerce⟩ := exists_of_mem_mapM h hp
  refine valid_of_coerce I ?_ hcoerce
  rintro r rfl
  exact hmembers r hv

end Suite

/-! ## The members of the subgroups -/

namespace Coding.Laws

variable {F : Type} [Field F] [DecidableEq F] {C : Coding F} (L : C.Laws)

/-- Members that stand for one element have one normal form. -/
theorem normal_eq_of_coincide {p r : Point F}
    (h : (L.curve.reading.ofOrder groupOrder).Coincide p r) : p.normal = r.normal := by
  have hp : p.onCurve L.curve.b = true := h.left.1
  have hr : r.onCurve L.curve.b = true := h.right.1
  have hread : L.curve.affine p = L.curve.affine r := by
    have heq := congrArg Subtype.val h.read_eq
    exact (L.curve.reading.coe_readOrder h.left.nsmul_read).symm.trans
      (heq.trans (L.curve.reading.coe_readOrder h.right.nsmul_read))
  exact L.curve.normal_eq_of_affine_eq hp hr hread

/-- The members of a group, read as elements of the subgroup. -/
noncomputable def interpretation :
    C.group.Interpretation C.side
      (AddSubgroup.torsionBy L.curve.weierstrass.Point (groupOrder : ℤ)) where
  toReading := L.curve.reading.ofOrder groupOrder
  valid_of_decode {form data allowIdentity p} h := by
    obtain ⟨-, -, hmember, -⟩ := (L.exact form data allowIdentity p).mp h
    exact L.member_iff_valid.mp hmember
  same_of_coincide h := Point.same_of_normal_eq (L.normal_eq_of_coincide h)
  exists_encode form p r h := by
    obtain ⟨data, hp, hnormal, hlength⟩ :=
      L.exists_encode_width form (L.member_iff_valid.mpr h.left)
    obtain ⟨data', hr, hnormal', -⟩ :=
      L.exists_encode_width form (L.member_iff_valid.mpr h.right)
    -- both are written as their common normal form
    rw [L.normal_eq_of_coincide h, hnormal'] at hnormal
    cases hnormal
    exact ⟨data, hp, hr, hlength⟩

end Coding.Laws

/-- The members of the subgroup that a family lives in. -/
def MemberPoint : (f : Family) → f.Point (Point Fq) (Point Fq2) → Prop
  | .key => coding₁.Member
  | .signature => coding₂.Member
  | .proof => coding₂.Member

/-- The subgroup that a family lives in. -/
def Family.Subgroup : Family → Type
  | .key => G₁
  | .signature => G₂
  | .proof => G₂

noncomputable instance : (f : Family) → AddCommGroup f.Subgroup
  | .key => inferInstanceAs (AddCommGroup G₁)
  | .signature => inferInstanceAs (AddCommGroup G₂)
  | .proof => inferInstanceAs (AddCommGroup G₂)

namespace Backend

variable {T : Type} (B : Backend T)

/-- The members of a family, read as elements of its subgroup. -/
noncomputable def interpretation :
    (f : Family) → (B.suite.group f).Interpretation f.side f.Subgroup
  | .key => laws₁.interpretation
  | .signature => laws₂.interpretation
  | .proof => laws₂.interpretation

/-- A triple is valid if it is a member of the subgroup of its family. -/
theorem valid_interpretation {f : Family} {p : f.Point (Point Fq) (Point Fq2)} :
    (B.interpretation f).Valid p ↔ MemberPoint f p := by
  cases f with
  | key => exact laws₁.member_iff_valid.symm
  | signature => exact laws₂.member_iff_valid.symm
  | proof => exact laws₂.member_iff_valid.symm

end Backend

end AggSig
