/-
  The check of distinct messages that answers no instead of failing.

  It answers no for two kinds of failure of the check that it stands in front of: lists that do not match,
  and lists that are empty.  A byte string of the wrong width is a failure of the first kind as well
  (`Failure.IsAnswered`), so there is something to show: nothing that happens after the lengths of the lists
  have been looked at fails in such a way, whatever the arguments are (`Backend.failsOnly_checkPairs`).
  Wire values have their widths from the start, what belongs to another family is refused as such, and the
  messages and the pairing fail as misuses only.

  So the answer no stands for the lengths alone (`Backend.aggregateVerify_of_mismatch`), and for lists that
  match the two checks are one (`Backend.aggregateVerify_of_match`).
-/
import AggSig.Proofs.Verify.Order

namespace AggSig

namespace Failure

/-- The fail-closed check answers no to the failure. -/
def IsAnswered (failure : Failure) : Prop :=
  (failure.isError .inputLengthMismatch || failure.isError .emptyAggregation) = true

/-- The failure is a misuse, which only the caller answers for. -/
def IsMisuse (failure : Failure) : Prop := ∃ misuse, failure.category = .misuse misuse

/-- A misuse is not answered. -/
theorem IsMisuse.not_isAnswered {failure : Failure} (h : failure.IsMisuse) : ¬ failure.IsAnswered := by
  obtain ⟨misuse, hmisuse⟩ := h
  rw [IsAnswered, isError, isError, hmisuse]
  exact Bool.false_ne_true

end Failure

/-! ## Messages -/

section

variable {P₁ P₂ T : Type}

/-- A number of bytes that cannot be made is a misuse. -/
theorem Value.failsOnly_zeroBytes (n : Int) : FailsOnly Failure.IsMisuse (Value.zeroBytes n) := by
  refine .map ?_ _
  rw [zeroCount]
  split
  · exact .error ⟨_, rfl⟩
  · split
    · exact .error ⟨_, rfl⟩
    · split
      · exact .error ⟨_, rfl⟩
      · exact .ok _

/-- An item that is no byte is a misuse. -/
theorem Value.failsOnly_byte (v : Value P₁ P₂) : FailsOnly Failure.IsMisuse v.byte := by
  rw [byte]
  split
  · split
    · exact .ok _
    · exact .error ⟨_, rfl⟩
  · exact .error ⟨_, rfl⟩

namespace Suite

variable (S : Suite P₁ P₂ T)

/-- What cannot be taken as bytes is a misuse. -/
theorem failsOnly_bytesOf (v : Value P₁ P₂) : FailsOnly Failure.IsMisuse (S.bytesOf v) := by
  -- one case for each kind of value
  cases v with
  | buffer | wire | element | secretKey | keypair => exact .ok _
  | integer n => exact Value.failsOnly_zeroBytes n
  | truth b => exact Value.failsOnly_zeroBytes _
  | list items => exact .mapM fun v _ => v.failsOnly_byte
  | pair first second => exact .mapM fun v _ => v.failsOnly_byte
  | textStream s =>
    rw [bytesOf]
    split
    · exact .ok _
    · exact .error ⟨_, rfl⟩
  | byteStream content =>
    rw [bytesOf]
    split
    · exact .ok _
    · exact .error ⟨_, rfl⟩
  | absent | fraction | text | point₁ | point₂ | coordinate => exact .error ⟨_, rfl⟩

/-! ## Pairings -/

variable [One T] [Mul T]

/-- A product fails only as its pairings do. -/
theorem failsOnly_pairingProduct {p : Failure → Prop} (hpair : ∀ h k, FailsOnly p (S.pair h k))
    (pairs : List (P₂ × P₁)) : FailsOnly p (S.pairingProduct pairs) := by
  rw [pairingProduct]
  -- on the pairs; the product that they follow on does not matter
  generalize (1 : T) = start
  induction pairs generalizing start with
  | nil => exact .ok start
  | cons pair rest ih =>
    rw [List.foldlM_cons]
    exact ((hpair pair.1 pair.2).map _).bind fun product _ => ih product

end Suite

end

/-- Points off their curves have no pairing, which is a misuse. -/
theorem Pairing.failsOnly_pair (h : Point Fq2) (k : Point Fq) :
    FailsOnly Failure.IsMisuse (Pairing.pair h k) := by
  rw [Pairing.pair]
  split
  · exact .error ⟨_, rfl⟩
  · split
    · exact .error ⟨_, rfl⟩
    · split
      · exact .ok _
      · exact .ok _

/-! ## The guarded check -/

/-- Lists that do not match fail for their lengths, and lists that are empty for that. -/
theorem Suite.exists_checkDistinct_eq_error {P₁ P₂ : Type} (check : ListCheck)
    {keys messages : List (Value P₁ P₂)} (h : keys.length ≠ messages.length ∨ keys = []) :
    ∃ failure, Suite.checkDistinct check keys messages = .error failure ∧
      failure.category = .error (if keys.length ≠ messages.length then .inputLengthMismatch
        else .emptyAggregation) := by
  by_cases hlength : keys.length = messages.length
  · have hempty : keys.isEmpty = true := List.isEmpty_iff.mpr (h.resolve_left (not_not.mpr hlength))
    refine ⟨.emptyLists check, ?_, ?_⟩
    · rw [Suite.checkDistinct, if_neg (not_not.mpr hlength), if_pos hempty]
    · rw [if_neg (not_not.mpr hlength)]
      rfl
  · refine ⟨.lengthsDiffer check keys.length .messages messages.length, if_pos hlength, ?_⟩
    rw [if_pos hlength]
    rfl

namespace Backend

variable {T : Type} {B : Backend T}

/-- An argument that cannot be taken is no reason for the answer no. -/
theorem failsOnly_coerce_of_any (f : Family) (v : Value (Point Fq) (Point Fq2)) :
    FailsOnly (¬ ·.IsAnswered) (B.suite.coerce f v false) := by
  intro failure h
  have htake : B.suite.take ⟨f, v⟩ = .error failure := Suite.take_eq_error_iff.mpr h
  rw [Failure.IsAnswered, not_answered_of_take htake]
  exact Bool.false_ne_true

variable [Monoid T] [DecidableEq T] (hpair : ∀ h k, FailsOnly Failure.IsMisuse (B.pair h k))

include hpair

/-- Once lists match, nothing is. -/
theorem failsOnly_checkPairs {keys messages : List (Value (Point Fq) (Point Fq2))}
    (hlength : keys.length = messages.length) (hne : keys ≠ [])
    (signature : Value (Point Fq) (Point Fq2)) :
    FailsOnly (¬ ·.IsAnswered) (B.suite.verifyPairs keys signature messages) := by
  -- with matching lists: the signature, the keys, the messages, the pairing
  rw [Suite.verifyPairs_eq, Suite.checkDistinct_eq_ok hlength hne]
  refine (failsOnly_coerce_of_any .signature signature).bind fun s _ => ?_
  have hkeys : FailsOnly (¬ ·.IsAnswered) (B.suite.coerceAll .key keys) :=
    .mapM fun k _ => failsOnly_coerce_of_any .key k
  refine hkeys.bind fun points _ => ?_
  refine FailsOnly.mono (p := Failure.IsMisuse) ?_ fun _ h => h.not_isAnswered
  rw [Suite.checkPoints]
  split
  · exact .ok false
  · have hcontents : FailsOnly Failure.IsMisuse (messages.mapM B.suite.bytesOf) :=
      .mapM fun m _ => B.suite.failsOnly_bytesOf m
    refine hcontents.bind fun contents _ => ?_
    refine (B.suite.failsOnly_pairingProduct hpair _).bind fun product _ => ?_
    exact FailsOnly.bind (hpair s _) fun last _ => .ok _

section

variable {keys messages : Value (Point Fq) (Point Fq2)} {ks ms : List (Value (Point Fq) (Point Fq2))}
  (hkeys : B.suite.items keys = .ok ks) (hmessages : B.suite.items messages = .ok ms)
  (signature : Value (Point Fq) (Point Fq2))

include hkeys hmessages

omit hpair in
/-- Lists that do not match or are empty are answered with no, and are why the guarded check fails. -/
theorem aggregateVerify_of_mismatch (h : ks.length ≠ ms.length ∨ ks = []) :
    B.suite.aggregateVerify keys messages signature = .ok false ∧
      ∃ failure, B.suite.verifyDistinctAggregated keys signature messages = .error failure ∧
        failure.category = .error (if ks.length ≠ ms.length then .inputLengthMismatch
          else .emptyAggregation) := by
  obtain ⟨failure, hfailure, hcategory⟩ := Suite.exists_checkDistinct_eq_error .distinctAggregated h
  have hpairs : B.suite.verifyPairs ks signature ms = .error failure := by
    rw [Suite.verifyPairs_eq, hfailure]
    rfl
  -- both failures of the lengths are among those that it answers
  have hanswered : failure.IsAnswered := by
    rw [Failure.IsAnswered, Failure.isError, Failure.isError, hcategory]
    by_cases hlength : ks.length ≠ ms.length
    · rw [if_pos hlength]
      rfl
    · rw [if_neg hlength]
      rfl
  rw [Suite.aggregateVerify, Suite.verifyDistinctAggregated, hkeys, hmessages]
  simp only [bind, Except.bind, hpairs]
  exact ⟨if_pos hanswered, failure, rfl, hcategory⟩

/-- For lists that match, the fail-closed check is the check that it stands in front of. -/
theorem aggregateVerify_of_match (hlength : ks.length = ms.length) (hne : ks ≠ []) :
    B.suite.aggregateVerify keys messages signature =
      B.suite.verifyDistinctAggregated keys signature messages := by
  have honly := failsOnly_checkPairs hpair hlength hne signature
  rw [Suite.aggregateVerify, Suite.verifyDistinctAggregated, hkeys, hmessages]
  simp only [bind, Except.bind]
  cases hpairs : B.suite.verifyPairs ks signature ms with
  | ok answer => rfl
  | error failure => exact if_neg (honly failure hpairs)

end

end Backend

/-! ## The suite that runs -/

/-- The fail-closed check is exactly the front of the check of an aggregate signature for distinct messages.
    For lists that do not match or are empty, which that check refuses, the answer is no, whatever the
    signature is.  For all other lists both checks answer the same or fail in the same way, and the first
    argument that cannot be taken, whether it gives no point or is of another family, is refused. -/
theorem aggregateVerify_front (keys messages : Value (Point Fq) (Point Fq2))
    {ks ms : List (Value (Point Fq) (Point Fq2))} (hkeys : bls12381.items keys = .ok ks)
    (hmessages : bls12381.items messages = .ok ms) (signature : Value (Point Fq) (Point Fq2)) :
    (ks.length ≠ ms.length ∨ ks = [] →
      bls12381.aggregateVerify keys messages signature = .ok false ∧
        ∃ failure, bls12381.verifyDistinctAggregated keys signature messages = .error failure ∧
          failure.category = .error (if ks.length ≠ ms.length then .inputLengthMismatch
            else .emptyAggregation)) ∧
    (ks.length = ms.length → ks ≠ [] →
      bls12381.aggregateVerify keys messages signature =
          bls12381.verifyDistinctAggregated keys signature messages ∧
        ∀ failure,
          FirstFailure bls12381.take (⟨.signature, signature⟩ :: ks.map (Slot.mk .key)) failure →
            bls12381.aggregateVerify keys messages signature = .error failure) := by
  rw [bls12381_eq_suite] at hkeys hmessages ⊢
  refine ⟨Backend.aggregateVerify_of_mismatch hkeys hmessages signature, fun hlength hne => ?_⟩
  have hfront := Backend.aggregateVerify_of_match Pairing.failsOnly_pair hkeys hmessages signature
    hlength hne
  refine ⟨hfront, fun failure hfailure => ?_⟩
  rw [hfront, Suite.verifyDistinctAggregated, hkeys, hmessages]
  show Suite.verifyPairs _ ks signature ms = .error failure
  rw [Suite.verifyPairs_eq, Suite.checkDistinct_eq_ok hlength hne]
  exact Suite.failsFirst_coerce (fun s _ => Suite.failsFirst_coerceAll_last _) failure hfailure

/-- A proof in the place of the signature is refused where there is a message for the key, and not looked at
    where there is none.  A key of zeros is refused as well. -/
theorem aggregateVerify_front_refused :
    bls12381.aggregateVerify (.list [.element (.key generator)]) (.list [.ofBytes []])
        (.element (.proof generator₂)) =
      .error (.wrongFamily .signature "ProofOfPossessionProjective") ∧
    bls12381.aggregateVerify (.list [.element (.key generator)]) (.list [])
        (.element (.proof generator₂)) = .ok false ∧
    bls12381.aggregateVerify (.list [.wire (Wire.zero .key .affine)]) (.list [.ofBytes []])
        (.element (.signature generator₂)) = .error (.offCurve .g1 .affine) := by
  obtain ⟨-, hforeign⟩ := aggregateVerify_front (.list [.element (.key generator)])
    (.list [.ofBytes []]) rfl rfl (.element (.proof generator₂))
  obtain ⟨hmismatch, -⟩ := aggregateVerify_front (.list [.element (.key generator)])
    (.list []) rfl rfl (.element (.proof generator₂))
  obtain ⟨-, hzeros⟩ := aggregateVerify_front (.list [.wire (Wire.zero .key .affine)])
    (.list [.ofBytes []]) rfl rfl (.element (.signature generator₂))
  refine ⟨?_, (hmismatch (.inl (by decide))).1, ?_⟩
  · exact (hforeign rfl (List.cons_ne_nil _ _)).2 _ (firstFailure_cons.mpr (.inl rfl))
  · have hsignature : ∃ e, bls12381.take ⟨.signature, .element (.signature generator₂)⟩ = .ok e :=
      ⟨_, rfl⟩
    have hkey : bls12381.take ⟨.key, .wire (Wire.zero .key .affine)⟩ =
        .error (.offCurve .g1 .affine) := by rfl
    exact (hzeros rfl (List.cons_ne_nil _ _)).2 _
      (firstFailure_cons.mpr (.inr ⟨hsignature, firstFailure_cons.mpr (.inl hkey)⟩))

end AggSig
