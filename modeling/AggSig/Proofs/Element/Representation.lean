/-
  One element, represented in several ways.

  A member of a subgroup may be handed in as a triple, in any scaling, or as a wire value of either form
  (`Suite.Represents`).  Whatever it is handed in as, it is taken as a triple that stands for it: scaling
  keeps what a triple stands for (`Coding.Laws.coincide_of_scaling`), and a wire value is decoded to the
  normal form of what was encoded (`Coding.Laws.decode_normal`).

  Two values are *recast* of each other if they represent one member other than the identity.  They are
  then taken as triples that stand for one element (`Backend.coerce_of_recast`), and so are the members
  of two lists, one by one (`Backend.coerceAll_of_recast`).
-/
import AggSig.Proofs.Element.Alike
import AggSig.Proofs.Pairing.Scaling
import AggSig.Proofs.Verify.Arguments
import Mathlib.Data.List.Forall2

namespace AggSig

/-! ## Triples that stand for one element -/

/-- A triple on the curve, in another scaling. -/
theorem ShortCurve.scaled_spec {F : Type} [Field F] [DecidableEq F] (C : ShortCurve F) {p : Point F}
    {c : F} (hp : p.onCurve C.b = true) (hc : c ≠ 0) :
    (p.scaled c).onCurve C.b = true ∧ C.affine (p.scaled c) = C.affine p := by
  -- at infinity, or affine coordinates over a common denominator, which takes the factor
  rcases C.cases_onCurve hp with hz | ⟨x, y, z, h, hz, rfl⟩
  · have hz' : (p.scaled c).z = 0 := mul_eq_zero_of_right c hz
    rw [C.affine_of_infinite hz]
    exact C.spec_of_infinite hz'
  · have hscaled : Point.scaled c ⟨x * z, y * z, z⟩ = ⟨x * (c * z), y * (c * z), c * z⟩ := by
      simp only [Point.scaled, Point.mk.injEq]
      exact ⟨mul_left_comm c x z, mul_left_comm c y z, trivial⟩
    rw [C.affine_mk hz h]
    exact C.spec_of_eq_mk hscaled (mul_ne_zero hc hz) _

namespace Coding.Laws

variable {F : Type} [Field F] [DecidableEq F] {C : Coding F} (L : C.Laws) {p r : Point F}
  (hp : C.Member p)

include L hp

/-- A triple on the curve that stands for the same point as a member. -/
theorem coincide_of_affine_eq (hr : r.onCurve L.curve.b = true)
    (hread : L.curve.affine r = L.curve.affine p) :
    (L.curve.reading.ofOrder groupOrder).Coincide p r := by
  have hkilled : groupOrder • L.curve.affine p = 0 := (L.member_iff.mp hp).2
  have hkilled' : groupOrder • L.curve.affine r = 0 := by rw [hread, hkilled]
  refine ⟨L.member_iff_valid.mp hp, L.curve.reading.hasOrder_of_read hr hkilled', Subtype.ext ?_⟩
  exact (L.curve.reading.coe_readOrder hkilled).trans
    (hread.symm.trans (L.curve.reading.coe_readOrder hkilled').symm)

theorem coincide_normal : (L.curve.reading.ofOrder groupOrder).Coincide p p.normal := by
  obtain ⟨hcurve, hread⟩ := L.curve.normal_spec (L.member_iff.mp hp).1
  exact L.coincide_of_affine_eq hp hcurve hread

/-- Every scaling of a member stands for the same element. -/
theorem coincide_of_scaling (h : p.Scaling r) :
    (L.curve.reading.ofOrder groupOrder).Coincide p r := by
  obtain ⟨c, hc, rfl⟩ := h
  obtain ⟨hcurve, hread⟩ := L.curve.scaled_spec (L.member_iff.mp hp).1 hc
  exact L.coincide_of_affine_eq hp hcurve hread

/-- What is written for a finite member is read as its normal form. -/
theorem decode_normal (hfinite : p.isInfinity = false) {form : Form} {data : Bytes}
    (hdata : C.group.encode form p = .ok data) : C.group.decode form data false = .ok p.normal := by
  obtain ⟨data', hdata', hnormal⟩ := L.exists_encode hp form
  obtain rfl : data = data' := Except.ok.inj (hdata.symm.trans hdata')
  refine (L.exact form data false p.normal).mpr ⟨hnormal, p.normal_normal, L.member_normal hp, ?_⟩
  rw [Point.isInfinity_normal, hfinite]
  exact id

end Coding.Laws

/-! ## Values that represent an element -/

/-- The second point of a family is the first one, in some scaling. -/
def ScaledPoint : (f : Family) → (p r : f.Point (Point Fq) (Point Fq2)) → Prop
  | .key => Point.Scaling
  | .signature => Point.Scaling
  | .proof => Point.Scaling

namespace Suite

variable {T : Type} (S : Suite (Point Fq) (Point Fq2) T)

/-- The value is a point in some scaling, or its wire value of either form. -/
inductive Represents (f : Family) (p : f.Point (Point Fq) (Point Fq2)) :
    Value (Point Fq) (Point Fq2) → Prop
  | scaled {r : f.Point (Point Fq) (Point Fq2)} :
      ScaledPoint f p r → Represents f p (.element (.of f r))
  | wire {form : Form} {w : Wire} :
      S.toForm form (.of f p) = .ok w → Represents f p (.wire w)

/-- Both values represent one member of a subgroup other than the identity. -/
def Recast (f : Family) (v v' : Value (Point Fq) (Point Fq2)) : Prop :=
  ∃ p, MemberPoint f p ∧ (S.group f).isIdentity p = false ∧ S.Represents f p v ∧ S.Represents f p v'

/-- Both values can be walked, and their members are recast of each other, one by one. -/
def RecastList (f : Family) (v v' : Value (Point Fq) (Point Fq2)) : Prop :=
  ∃ members members', S.items v = .ok members ∧ S.items v' = .ok members' ∧
    List.Forall₂ (S.Recast f) members members'

/-- Bytes of the width of a form are decoded as that form. -/
theorem decodeElement_of_length {P₁ P₂ T : Type} (S : Suite P₁ P₂ T) {f : Family} {form : Form}
    {data : Bytes} (h : data.length = f.width form) (allowIdentity : Bool) :
    S.decodeElement f data allowIdentity = (S.group f).decode form data allowIdentity := by
  cases form with
  | affine => exact if_pos h
  | compressed =>
    have hwidth : data.length ≠ f.width .affine := by
      rw [h]
      cases f <;> decide
    exact (if_neg hwidth).trans (if_pos h)

end Suite

namespace Backend

variable {T : Type} {B : Backend T} {f : Family}

/-- In every family, a scaling stands for the same element. -/
theorem coincide_of_scaledPoint {p r : f.Point (Point Fq) (Point Fq2)} (hp : MemberPoint f p)
    (h : ScaledPoint f p r) : (B.interpretation f).Coincide p r := by
  cases f with
  | key => exact laws₁.coincide_of_scaling hp h
  | signature => exact laws₂.coincide_of_scaling hp h
  | proof => exact laws₂.coincide_of_scaling hp h

/-- What is written for a finite member is read as a triple that stands for it. -/
theorem exists_decode {p : f.Point (Point Fq) (Point Fq2)} (hp : MemberPoint f p)
    (hfinite : (B.suite.group f).isIdentity p = false) {form : Form} {data : Bytes}
    (hdata : (B.suite.group f).encode form p = .ok data) :
    ∃ r, (B.suite.group f).decode form data false = .ok r ∧ (B.interpretation f).Coincide p r := by
  cases f with
  | key => exact ⟨_, laws₁.decode_normal hp hfinite hdata, laws₁.coincide_normal hp⟩
  | signature => exact ⟨_, laws₂.decode_normal hp hfinite hdata, laws₂.coincide_normal hp⟩
  | proof => exact ⟨_, laws₂.decode_normal hp hfinite hdata, laws₂.coincide_normal hp⟩

/-- A representation of a finite member is taken as a triple that stands for it. -/
theorem coerce_of_represents {p : f.Point (Point Fq) (Point Fq2)}
    {v : Value (Point Fq) (Point Fq2)} (hp : MemberPoint f p)
    (hfinite : (B.suite.group f).isIdentity p = false) (hv : B.suite.Represents f p v) :
    ∃ r, B.suite.coerce f v false = .ok r ∧ (B.interpretation f).Coincide p r := by
  -- a scaling is taken as it is; a wire value is decoded to a normal form
  cases hv with
  | scaled h => exact ⟨_, B.suite.coerce_of f _ false, coincide_of_scaledPoint hp h⟩
  | @wire form w h =>
    rw [Suite.toForm_of] at h
    obtain ⟨data, hdata, hw⟩ := bind_eq_ok.mp h
    rw [Wire.ofBytes] at hw
    split at hw
    · next hlength =>
      cases hw
      obtain ⟨r, hr, hcoincide⟩ := exists_decode hp hfinite hdata
      refine ⟨r, ?_, hcoincide⟩
      rw [Suite.coerce, if_pos rfl, B.suite.decodeElement_of_length hlength]
      exact hr
    · cases hw

/-- Values that are recast of each other are taken as triples that stand for one element. -/
theorem coerce_of_recast {v v' : Value (Point Fq) (Point Fq2)} (h : B.suite.Recast f v v') :
    ∃ p p', B.suite.coerce f v false = .ok p ∧ B.suite.coerce f v' false = .ok p' ∧
      (B.interpretation f).Coincide p p' := by
  obtain ⟨p, hp, hfinite, hv, hv'⟩ := h
  obtain ⟨r, hr, hcoincide⟩ := coerce_of_represents hp hfinite hv
  obtain ⟨r', hr', hcoincide'⟩ := coerce_of_represents hp hfinite hv'
  exact ⟨r, r', hr, hr', hcoincide.right, hcoincide'.right,
    hcoincide.read_eq.symm.trans hcoincide'.read_eq⟩

/-- So are the members of two lists. -/
theorem coerceAll_of_recast {members members' : List (Value (Point Fq) (Point Fq2))}
    (h : List.Forall₂ (B.suite.Recast f) members members') :
    ∃ points points', B.suite.coerceAll f members = .ok points ∧
      B.suite.coerceAll f members' = .ok points' ∧
      List.Forall₂ (B.interpretation f).Coincide points points' := by
  -- pair by pair, along both lists
  induction h with
  | nil => exact ⟨[], [], rfl, rfl, .nil⟩
  | @cons v v' members members' hv _ ih =>
    obtain ⟨p, p', hp, hp', hcoincide⟩ := coerce_of_recast hv
    obtain ⟨points, points', hpoints, hpoints', hcoincides⟩ := ih
    refine ⟨p :: points, p' :: points', ?_, ?_, .cons hcoincide hcoincides⟩
    · rw [Suite.coerceAll_cons, hp, hpoints]
      rfl
    · rw [Suite.coerceAll_cons, hp', hpoints']
      rfl

end Backend

end AggSig
