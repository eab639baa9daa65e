/-
  Why an argument is refused.

  A value that has another family than the one expected, or none, is no argument at all
  (`Suite.coerce_of_foreign`).  One that has the right family is refused only if its bytes give no point
  (`Backend.failsOnly_coerce`): the width of a wire value is right from the start, and every later check
  of a decoder is one of the point (`Coding.failsOnly_decode`).
-/
import AggSig.Proofs.Element.Representation

namespace AggSig

namespace Failure

/-- The failure is of one of the library's own kinds. -/
def IsReported (failure : Failure) : Prop := ∃ kind, failure.category = .error kind

/-- The failure is that an encoding gives no point. -/
def IsOfPoint (failure : Failure) : Prop := failure.isError .pointConversion = true

/-- A failure about a point is reported. -/
theorem IsOfPoint.isReported {failure : Failure} (h : failure.IsOfPoint) : failure.IsReported := by
  rw [IsOfPoint, isError] at h
  split at h
  · next kind hkind => exact ⟨kind, hkind⟩
  · cases h

/-- It is of no kind that no failure of a point refines. -/
theorem IsOfPoint.isError_eq_false {failure : Failure} (h : failure.IsOfPoint) {kind : ErrorKind}
    (hkind : ∀ k : ErrorKind, k.isA .pointConversion = true → k.isA kind = false) :
    failure.isError kind = false := by
  obtain ⟨k, hk⟩ := h.isReported
  rw [IsOfPoint, isError, hk] at h
  rw [isError, hk]
  exact hkind k h

end Failure

/-! ## Decoders -/

namespace Coding

variable {F : Type} [Field F] [DecidableEq F] (C : Coding F)

/-- A check fails on a point only. -/
theorem failsOnly_validate (form : Form) (allowIdentity : Bool) (p : Point F) :
    FailsOnly Failure.IsOfPoint (C.validate form allowIdentity p) := by
  rw [validate]
  split
  · split
    · exact .ok p
    · exact .error rfl
  · split
    · exact .error rfl
    · split
      · exact .error rfl
      · exact .ok p

omit [Field F] [DecidableEq F] in

/-- So does the reading of coordinates. -/
theorem failsOnly_readLimbs (form : Form) (pieces : List Bytes) :
    FailsOnly Failure.IsOfPoint (pieces.mapM fun piece => C.readLimb form (Bytes.toNat piece)) := by
  refine .mapM fun piece _ => ?_
  rw [readLimb]
  split
  · exact .ok _
  · exact .error rfl

omit [DecidableEq F] in

/-- So does the search for an ordinate. -/
theorem failsOnly_decompress (first : Nat) (rest : List Fq) :
    FailsOnly Failure.IsOfPoint (C.decompress first rest) := by
  rw [decompress]
  dsimp only
  -- the flags one after the other, each with a refusal of its own
  split
  · exact .error rfl
  · split
    · exact .error rfl
    · split
      · split
        · exact .error rfl
        · exact .ok _
      · split
        · split
          · exact .ok _
          · exact .error rfl
        · exact .error rfl

/-- Bytes of the right width are refused only if they give no point. -/
theorem failsOnly_decode {form : Form} {data : Bytes} (hlength : data.length = C.side.width form)
    (allowIdentity : Bool) :
    FailsOnly Failure.IsOfPoint (C.group.decode form data allowIdentity) := by
  -- once the width is right, every refusal in the decoder is about the point
  cases form with
  | affine =>
    show FailsOnly _ (C.decodeAffine data allowIdentity)
    rw [decodeAffine, if_neg (not_not.mpr hlength)]
    dsimp only
    split
    · exact .error rfl
    · split
      · exact .error rfl
      · split
        · split
          · exact .error rfl
          · exact C.failsOnly_validate _ _ _
        · exact (C.failsOnly_readLimbs _ _).bind fun limbs _ => C.failsOnly_validate _ _ _
  | compressed =>
    show FailsOnly _ (C.decodeCompressed data allowIdentity)
    rw [decodeCompressed, if_neg (not_not.mpr hlength)]
    refine (C.failsOnly_readLimbs _ _).bind fun rest _ => ?_
    exact (C.failsOnly_decompress _ _).bind fun p _ => C.failsOnly_validate _ _ _

end Coding

/-! ## Arguments -/

/-- The family of a value that is an element or a wire value. -/
def Value.family? {P₁ P₂ : Type} : Value P₁ P₂ → Option Family
  | .element e => some e.family
  | .wire w => some w.family
  | _ => none

/-- What is not of the family is refused for that, before anything else is looked at. -/
theorem Suite.coerce_of_foreign {P₁ P₂ T : Type} (S : Suite P₁ P₂ T) {f : Family} {v : Value P₁ P₂}
    (h : v.family? ≠ some f) (allowIdentity : Bool) :
    S.coerce f v allowIdentity = .error (.wrongFamily f v.typeName) := by
  cases v with
  | element e =>
    have hother : e.family ≠ f := fun heq => h (congrArg some heq)
    rw [coerce]
    cases f <;> cases e <;> first | rfl | exact absurd rfl hother
  | wire w =>
    have hother : w.family ≠ f := fun heq => h (congrArg some heq)
    rw [coerce, if_neg hother]
  | _ => rfl

namespace Backend

variable {T : Type} (B : Backend T) {f : Family} (allowIdentity : Bool)

/-- Bytes of the right width are refused for their point only. -/
theorem failsOnly_decodeElement {form : Form} {data : Bytes} (h : data.length = f.width form) :
    FailsOnly Failure.IsOfPoint (B.suite.decodeElement f data allowIdentity) := by
  rw [B.suite.decodeElement_of_length h]
  cases f with
  | key => exact coding₁.failsOnly_decode h allowIdentity
  | signature => exact coding₂.failsOnly_decode h allowIdentity
  | proof => exact coding₂.failsOnly_decode h allowIdentity

/-- A value of the family is refused only if it gives no point. -/
theorem failsOnly_coerce {v : Value (Point Fq) (Point Fq2)} (h : v.family? = some f) :
    FailsOnly Failure.IsOfPoint (B.suite.coerce f v allowIdentity) := by
  cases v with
  | element e =>
    obtain ⟨g, p, rfl⟩ := e.exists_eq_of
    obtain rfl : g = f := (Element.family_of g p).symm.trans (Option.some.inj h)
    rw [Suite.coerce_of]
    exact .ok p
  | wire w =>
    obtain rfl : w.family = f := Option.some.inj h
    rw [Suite.coerce, if_pos rfl]
    exact B.failsOnly_decodeElement allowIdentity w.length_bytes
  | _ => cases h

end Backend

end AggSig
