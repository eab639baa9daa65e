/-
  Canonical encodings.

  An encoding is canonical if every member has one, which is read back as that member, and if nothing
  else is read: what is accepted is what is written for the result.  Then different byte strings never
  stand for one point.

  `Group.Canonical` says so of a form of a group.  It follows from an exact description of the decoder:
  what is read are the members in normal form, from what is written for them
  (`Coding.Laws.canonical_of_exact`).
-/
import AggSig.Proofs.Coding.Laws

namespace AggSig

/-- A form of encoding in which the members of a group and the byte strings that are accepted stand for
    each other. -/
structure Group.Canonical {P : Type} (G : Group P) (Member : P → Prop) (form : Form) : Prop where
  /-- Every member is written, and is read back as the same point; the identity, where it is allowed. -/
  decode_encode {p : P} {allowIdentity : Bool} : Member p →
    (G.isIdentity p = true → allowIdentity = true) →
    ∃ data r, G.encode form p = .ok data ∧ G.decode form data allowIdentity = .ok r ∧
      G.same r p = true ∧ G.isIdentity r = G.isIdentity p
  /-- Only what is written for the result is read, and only members are. -/
  encode_decode {data : Bytes} {allowIdentity : Bool} {p : P} :
    G.decode form data allowIdentity = .ok p → G.encode form p = .ok data ∧ Member p
  /-- What is read as the same point is the same. -/
  eq_of_same {data data' : Bytes} {allowIdentity allowIdentity' : Bool} {p p' : P} :
    G.decode form data allowIdentity = .ok p → G.decode form data' allowIdentity' = .ok p' →
    G.same p p' = true → data = data'

namespace Coding

variable {F : Type} [Field F] [DecidableEq F] (C : Coding F)

/-- What a decoder of a form accepts: the encodings of the members, each of which it reads as the
    normal form. -/
def Exact (form : Form) : Prop :=
  ∀ (data : Bytes) (allowIdentity : Bool) (p : Point F),
    C.group.decode form data allowIdentity = .ok p ↔
      C.group.encode form p = .ok data ∧ p.normal = p ∧ C.Member p ∧
        (p.isInfinity = true → allowIdentity = true)

/-- The affine encoding of the identity. -/
def affineIdentity : Bytes := 0x40 :: Bytes.zeros (C.side.width .affine - 1)

/-- The compressed encoding of the identity. -/
def compressedIdentity : Bytes := 0xc0 :: Bytes.zeros (C.side.width .compressed - 1)

variable {C}

theorem encodeAffine_of_infinite {p : Point F} (hz : p.z = 0) :
    C.encodeAffine p = C.affineIdentity :=
  if_pos (Point.isInfinity_iff.mpr hz)

theorem encodeAffine_of_finite {p : Point F} (hz : p.z ≠ 0) :
    C.encodeAffine p = C.writeLimbs (p.x / p.z) ++ C.writeLimbs (p.y / p.z) :=
  if_neg fun h => hz (Point.isInfinity_iff.mp h)

/-- Infinity has one compressed encoding. -/
theorem encodeCompressed_of_infinite {p : Point F} (hz : p.z = 0) :
    C.encodeCompressed p = .ok C.compressedIdentity := by
  have hinf : p.isInfinity = true := Point.isInfinity_iff.mpr hz
  have hcurve : p.onCurve C.constant = true := by rw [Point.onCurve, hinf, Bool.true_or]
  rw [encodeCompressed, if_neg (by simp [hcurve]), if_pos hinf]
  rfl

/-- A finite triple on the curve is written as its abscissa and the half of its ordinate. -/
theorem encodeCompressed_of_onCurve {p : Point F} (hp : p.onCurve C.constant = true) (hz : p.z ≠ 0) :
    C.encodeCompressed p = .ok (C.compress (p.x / p.z) (p.y / p.z)) := by
  rw [encodeCompressed, if_neg (by simp [hp]), if_neg fun h => hz (Point.isInfinity_iff.mp h)]
  rfl

theorem encodeCompressed_of_finite {p : Point F} (hp : C.Member p) (hz : p.z ≠ 0) :
    C.encodeCompressed p = .ok (C.compress (p.x / p.z) (p.y / p.z)) :=
  encodeCompressed_of_onCurve hp.1 hz

/-- What is read has the width of its form. -/
theorem length_of_decode {form : Form} {data : Bytes} {allowIdentity : Bool} {p : Point F}
    (h : C.group.decode form data allowIdentity = .ok p) : data.length = C.side.width form := by
  by_contra hne
  cases form with
  | affine =>
    have hfail : C.group.decode .affine data allowIdentity = .error _ := if_pos hne
    cases hfail.symm.trans h
  | compressed =>
    have hfail : C.group.decode .compressed data allowIdentity = .error _ := if_pos hne
    cases hfail.symm.trans h

namespace Laws

variable (L : C.Laws)

include L

/-- Every member is written, and its normal form is written the same way. -/
theorem exists_encode {p : Point F} (hp : C.Member p) (form : Form) :
    ∃ data, C.group.encode form p = .ok data ∧ C.group.encode form p.normal = .ok data := by
  -- both forms look at nothing but the affine coordinates, which the normal form keeps
  by_cases hz : p.z = 0
  · have hnormal : p.normal.z = 0 := by rw [Point.normal_of_infinite hz]; rfl
    cases form with
    | affine =>
      refine ⟨C.affineIdentity, congrArg Except.ok (encodeAffine_of_infinite hz), ?_⟩
      exact congrArg Except.ok (encodeAffine_of_infinite hnormal)
    | compressed =>
      exact ⟨C.compressedIdentity, encodeCompressed_of_infinite hz,
        encodeCompressed_of_infinite hnormal⟩
  · have hnormal := Point.normal_of_finite hz
    have hz' : p.normal.z ≠ 0 := by rw [hnormal]; exact one_ne_zero
    have hx : p.normal.x / p.normal.z = p.x / p.z := by rw [hnormal, div_one]
    have hy : p.normal.y / p.normal.z = p.y / p.z := by rw [hnormal, div_one]
    cases form with
    | affine =>
      refine ⟨_, congrArg Except.ok (encodeAffine_of_finite hz), ?_⟩
      rw [← hx, ← hy]
      exact congrArg Except.ok (encodeAffine_of_finite hz')
    | compressed =>
      refine ⟨_, encodeCompressed_of_finite hp hz, ?_⟩
      rw [← hx, ← hy]
      exact encodeCompressed_of_finite (L.member_normal hp) hz'

/-- A form that is read exactly is canonical. -/
theorem canonical_of_exact {form : Form} (h : C.Exact form) :
    C.group.Canonical C.Member form where
  decode_encode {p allowIdentity} hp hidentity := by
    -- what is read is normal, so the normal form is what comes back
    obtain ⟨data, hdata, hnormal⟩ := L.exists_encode hp form
    refine ⟨data, p.normal, hdata, ?_, p.same_normal, p.isInfinity_normal⟩
    refine (h data allowIdentity p.normal).mpr ⟨hnormal, p.normal_normal, L.member_normal hp, ?_⟩
    rw [Point.isInfinity_normal]
    exact hidentity
  encode_decode hdecode := by
    obtain ⟨hencode, -, hmember, -⟩ := (h _ _ _).mp hdecode
    exact ⟨hencode, hmember⟩
  eq_of_same {data data' _ _ p p'} hdecode hdecode' hsame := by
    obtain ⟨hencode, hp, -, -⟩ := (h _ _ _).mp hdecode
    obtain ⟨hencode', hp', -, -⟩ := (h _ _ _).mp hdecode'
    have hiff := Point.same_iff_normal_eq (Point.ne_degenerate_of_normal_eq hp)
      (Point.ne_degenerate_of_normal_eq hp')
    have heq : p = p' := by rw [← hp, ← hp', hiff.mp hsame]
    rw [← heq] at hencode'
    exact Except.ok.inj (hencode.symm.trans hencode')

end Laws

end Coding

end AggSig
