/-
  What the codings of the two groups have in common.

  `Coding.Laws` is what the encodings of a group rely on: coordinates and rows of limbs stand for each
  other, a root is found of every square other than zero, and opposite ordinates lie in different
  halves.  Both codings obey it (`laws₁`, `laws₂`), so that what follows from it is said once for both
  groups.

  Here that is what the last gate of every decoder lets through: a member, and the identity only where
  it is allowed (`Laws.validate_eq_ok_iff`).  A member that is not the identity has no zero coordinate,
  which is why neither encoding of it can be mistaken for another one.
-/
import AggSig.Proofs.Curve.Normal
import AggSig.Proofs.Curve.Subgroup

namespace AggSig.Coding

variable {F : Type}

/-! ## Widths -/

/-- A compressed form has one coordinate. -/
theorem width_compressed (C : Coding F) : C.side.width .compressed = limbWidth * C.limbCount := by
  rw [limbCount]
  cases C.side <;> rfl

/-- An affine form has two. -/
theorem width_affine (C : Coding F) :
    C.side.width .affine = limbWidth * (2 * C.limbCount) := by
  rw [limbCount]
  cases C.side <;> rfl

theorem exists_limbCount_eq (C : Coding F) : ∃ k, C.limbCount = k + 1 := by
  rw [limbCount]
  cases C.side
  · exact ⟨0, rfl⟩
  · exact ⟨1, rfl⟩

/-! ## Limbs -/

/-- Every limb fits its bytes. -/
theorem limb_lt (a : Fq) : a.val < 256 ^ limbWidth :=
  a.lt.trans (by decide)

/-- Numbers are read as limbs exactly if all of them are below the field modulus. -/
theorem mapM_readLimb (C : Coding F) (form : Form) (pieces : List Bytes) :
    pieces.mapM (fun piece => C.readLimb form (Bytes.toNat piece)) =
      if ∀ n ∈ pieces.map Bytes.toNat, n < q then .ok ((pieces.map Bytes.toNat).map Fq.ofNat)
      else .error (.coordinateTooLarge C.side form) := by
  -- limb by limb: all of them are below the modulus, or the reading stops
  induction pieces with
  | nil => rfl
  | cons piece rest ih =>
    rw [List.mapM_cons, ih, readLimb]
    by_cases hfirst : Bytes.toNat piece < q
    · have hlimb : (⟨Bytes.toNat piece, hfirst⟩ : Fq) = Fq.ofNat (Bytes.toNat piece) :=
        Fq.ext (Nat.mod_eq_of_lt hfirst).symm
      rw [dif_pos hfirst, hlimb]
      by_cases hrest : ∀ n ∈ rest.map Bytes.toNat, n < q
      · have hall : ∀ n ∈ (piece :: rest).map Bytes.toNat, n < q := by
          rw [List.map_cons]
          exact List.forall_mem_cons.mpr ⟨hfirst, hrest⟩
        rw [if_pos hrest, if_pos hall]
        rfl
      · have hall : ¬ ∀ n ∈ (piece :: rest).map Bytes.toNat, n < q := by
          rw [List.map_cons]
          exact fun h => hrest (List.forall_mem_cons.mp h).2
        rw [if_neg hrest, if_neg hall]
        rfl
    · have hall : ¬ ∀ n ∈ (piece :: rest).map Bytes.toNat, n < q := by
        rw [List.map_cons]
        exact fun h => hfirst (List.forall_mem_cons.mp h).1
      rw [dif_neg hfirst, if_neg hall]
      rfl

/-- Numbers below the modulus are the values of the limbs that they are read as. -/
theorem map_val_ofNat {ns : List Nat} (h : ∀ n ∈ ns, n < q) :
    (ns.map Fq.ofNat).map Fq.val = ns := by
  rw [List.map_map]
  conv_rhs => rw [← List.map_id ns]
  exact List.map_congr_left fun n hn => Nat.mod_eq_of_lt (h n hn)

theorem map_ofNat_val (limbs : List Fq) : (limbs.map Fq.val).map Fq.ofNat = limbs := by
  rw [List.map_map]
  conv_rhs => rw [← List.map_id limbs]
  exact List.map_congr_left fun a _ => Fq.ofNat_val a

/-! ## Members -/

variable [Field F] [DecidableEq F]

/-- What the encodings of a group rely on. -/
structure Laws (C : Coding F) where
  curve : ShortCurve F
  constant_eq : C.constant = curve.b
  length_toLimbs (a : F) : (C.toLimbs a).length = C.limbCount
  ofLimbs_toLimbs (a : F) : C.ofLimbs (C.toLimbs a) = a
  toLimbs_ofLimbs {limbs : List Fq} :
    limbs.length = C.limbCount → C.toLimbs (C.ofLimbs limbs) = limbs
  eq_zero_of_toLimbs {a : F} : (∀ limb ∈ C.toLimbs a, limb = 0) → a = 0
  root?_mul_self {y : F} : y ≠ 0 → ∃ r, C.root? (y * y) = some r ∧ (r = y ∨ r = -y)
  isUpperHalf_neg {y : F} : y ≠ 0 → C.isUpperHalf (-y) = !C.isUpperHalf y

namespace Laws

variable {C : Coding F} (L : C.Laws)

include L

/-- A member is on the curve, and the group order kills the point that it stands for. -/
theorem member_iff {p : Point F} :
    C.Member p ↔ p.onCurve L.curve.b = true ∧ groupOrder • L.curve.affine p = 0 := by
  rw [Member, L.constant_eq]
  exact and_congr_right fun hp => L.curve.reading.hasOrder_iff hp groupOrder

/-- Infinity is a member. -/
theorem member_of_infinite {p : Point F} (hz : p.z = 0) : C.Member p := by
  obtain ⟨hcurve, hread⟩ := L.curve.spec_of_infinite hz
  rw [L.member_iff, hread, smul_zero]
  exact ⟨hcurve, rfl⟩

/-- The normal form of a member is one. -/
theorem member_normal {p : Point F} (hp : C.Member p) : C.Member p.normal := by
  rw [L.member_iff] at hp ⊢
  obtain ⟨hcurve, hread⟩ := L.curve.normal_spec hp.1
  rw [hread]
  exact ⟨hcurve, hp.2⟩

/-- A finite member has no coordinate that is zero. -/
theorem coordinates_ne_zero {p : Point F} (hp : C.Member p) (hz : p.z ≠ 0) :
    p.x ≠ 0 ∧ p.y ≠ 0 := by
  obtain ⟨hcurve, hkill⟩ := L.member_iff.mp hp
  exact L.curve.coordinates_ne_zero (by decide) (by decide) hcurve hz hkill

/-- The ordinate of a member with `z = 1` is a root of what the decoders take a root of. -/
theorem mul_self_of_member {x y : F} (hp : C.Member ⟨x, y, 1⟩) : y * y = x * x * x + C.constant := by
  have hmk := L.curve.onCurve_mk x y one_ne_zero
  rw [mul_one, mul_one] at hmk
  rw [L.constant_eq]
  exact hmk.mp (L.member_iff.mp hp).1

/-! ## The last gate -/

/-- A member passes, and the identity where it is allowed. -/
theorem validate_eq_ok_iff {form : Form} {allowIdentity : Bool} {p r : Point F} :
    C.validate form allowIdentity p = .ok r ↔
      r = p ∧ C.Member p ∧ (p.isInfinity = true → allowIdentity = true) := by
  rw [validate]
  -- the identity is a member, and only asked for; any other triple is checked for both parts of
  -- membership
  by_cases hinf : p.isInfinity = true
  · have hmember : C.Member p := L.member_of_infinite (Point.isInfinity_iff.mp hinf)
    rw [if_pos hinf]
    cases allowIdentity with
    | false => simp [hinf]
    | true => simp [hmember, eq_comm (a := r)]
  · rw [if_neg hinf]
    by_cases hcurve : p.onCurve C.constant = true
    · rw [if_neg (by simp [hcurve])]
      by_cases horder : Point.law.hasOrder groupOrder p = true
      · rw [if_neg (by simp [horder])]
        simp [Member, hcurve, horder, hinf, eq_comm (a := r)]
      · rw [if_pos (by simpa using horder)]
        simp [Member, horder]
    · rw [if_pos (by simpa using hcurve)]
      simp [Member, hcurve]

end Laws

end AggSig.Coding

namespace AggSig

open Coding

/-! ## The two codings -/

/-- The coding of the first group. -/
def laws₁ : coding₁.Laws where
  curve := curve₁
  constant_eq := rfl
  length_toLimbs _ := rfl
  ofLimbs_toLimbs _ := rfl
  toLimbs_ofLimbs {limbs} h := by
    match limbs, h with
    | [a], _ => rfl
  eq_zero_of_toLimbs {a} h := by
    have hlimbs : ∀ limb ∈ [a], limb = 0 := h
    exact hlimbs a List.mem_cons_self
  root?_mul_self {y} _ := by
    simp only [coding₁]
    exact Fq.squareRoot?_mul_self y
  isUpperHalf_neg := Fq.isUpperHalf_neg

/-- The coding of the second group. -/
def laws₂ : coding₂.Laws where
  curve := curve₂
  constant_eq := rfl
  length_toLimbs _ := by
    have hcount : coding₂.limbCount = 2 := rfl
    rw [hcount]
    rfl
  ofLimbs_toLimbs _ := rfl
  toLimbs_ofLimbs {limbs} h := by
    match limbs, h with
    | [a, b], _ => rfl
  eq_zero_of_toLimbs {a} h := by
    have hlimbs : ∀ limb ∈ [a.im, a.re], limb = 0 := h
    exact Fq2.ext (hlimbs a.re (List.mem_cons_of_mem _ List.mem_cons_self))
      (hlimbs a.im List.mem_cons_self)
  root?_mul_self hy := by
    simp only [coding₂]
    exact Fq2.squareRoot?_mul_self hy
  isUpperHalf_neg := Fq2.isUpperHalf_neg

end AggSig
