/-
  The order in which the arguments of a check are taken, and that families never mix.

  A `Slot` is an argument together with the family that is expected in its place, and `Suite.slots` lists
  the slots of a check in the order in which they are taken.  Where the lists of a check pass its own tests
  of their lengths (`Suite.Passes`), all slots are taken before anything is decided, so that the check
  fails as the first slot does that cannot be taken, whatever the others are
  (`Backend.check_eq_of_firstFailure`).  Nothing is drawn from the random source until then.

  What belongs to another family cannot be taken (`Suite.coerce_of_foreign`), so no check with such an
  argument has an answer and no aggregate has one among its members (`foreign_refused`).
-/
import AggSig.Proofs.Element.Refusal
import AggSig.Proofs.Verify.Identity

namespace AggSig

variable {P₁ P₂ T : Type}

/-- An argument, and the family that is expected in its place. -/
structure Slot (P₁ P₂ : Type) where
  family : Family
  value : Value P₁ P₂

/-- Whether the argument is neither an element nor a wire value of the family. -/
def Slot.IsForeign (slot : Slot P₁ P₂) : Prop := slot.value.family? ≠ some slot.family

namespace Suite

section

variable (S : Suite P₁ P₂ T)

/-- The element that the argument in a slot is taken as. -/
def take (slot : Slot P₁ P₂) : Except Failure (Element P₁ P₂) :=
  Element.of slot.family <$> S.coerce slot.family slot.value false

/-- The slots of the members of a list. -/
def slotsOf (f : Family) (values : Value P₁ P₂) : List (Slot P₁ P₂) :=
  (S.membersOf values).map (Slot.mk f)

/-- The keys, signatures and proofs that a check is given, in the order in which they are taken. -/
def slots : Check P₁ P₂ → List (Slot P₁ P₂)
  | .signature signature key _ => [⟨.signature, signature⟩, ⟨.key, key⟩]
  | .key key signature _ => [⟨.key, key⟩, ⟨.signature, signature⟩]
  | .proof proof key => [⟨.proof, proof⟩, ⟨.key, key⟩]
  | .possession key proof => [⟨.key, key⟩, ⟨.proof, proof⟩]
  | .fastAggregate keys _ signature | .failClosed keys _ signature
  | .distinctAggregated _ keys signature _ => ⟨.signature, signature⟩ :: S.slotsOf .key keys
  | .aggregate _ keys signatures _ => S.slotsOf .key keys ++ S.slotsOf .signature signatures
  | .distinct _ keys signatures _ => S.slotsOf .signature signatures ++ S.slotsOf .key keys
  | .batch keys proofs => S.slotsOf .key keys ++ S.slotsOf .proof proofs

/-- Two lists of one length, which is not zero. -/
def Match (values others : Value P₁ P₂) : Prop :=
  (S.membersOf values).length = (S.membersOf others).length ∧ S.membersOf values ≠ []

/-- The lists of a check pass its own tests of their lengths. -/
def Passes : Check P₁ P₂ → Prop
  | .signature .. | .key .. | .proof .. | .possession .. => True
  | .fastAggregate keys _ _ => S.membersOf keys ≠ []
  | .aggregate _ keys signatures _ => S.membersOf keys ≠ [] ∧ S.membersOf signatures ≠ []
  | .failClosed keys messages _ | .distinctAggregated _ keys _ messages => S.Match keys messages
  | .distinct _ keys signatures messages => S.Match keys messages ∧ S.Match keys signatures
  | .batch keys proofs => S.Match keys proofs

/-- A list that has members can be walked. -/
theorem items_of_membersOf_ne_nil {v : Value P₁ P₂} (h : S.membersOf v ≠ []) :
    S.items v = .ok (S.membersOf v) := by
  obtain ⟨w, hw⟩ := List.exists_mem_of_ne_nil _ h
  exact S.items_of_mem_membersOf hw

theorem Match.ne_nil {S : Suite P₁ P₂ T} {values others : Value P₁ P₂} (h : S.Match values others) :
    S.membersOf others ≠ [] := by
  intro hnil
  have hlength := h.1
  rw [hnil] at hlength
  exact h.2 (List.length_eq_zero_iff.mp hlength)

/-! ## Failing as the first slot does -/

/-- The computation fails as the first slot does that cannot be taken. -/
def FailsFirst {α : Type} (slots : List (Slot P₁ P₂)) (x : Except Failure α) : Prop :=
  ∀ failure, FirstFailure S.take slots failure → x = .error failure

variable {S} {α : Type} {f : Family} {slots : List (Slot P₁ P₂)}

theorem failsFirst_nil (x : Except Failure α) : S.FailsFirst [] x :=
  fun _ h => absurd h not_firstFailure_nil

/-- A slot is taken if its value is taken as an element of its family. -/
theorem take_eq_ok_iff {slot : Slot P₁ P₂} :
    (∃ e, S.take slot = .ok e) ↔ ∃ p, S.coerce slot.family slot.value false = .ok p := by
  rw [take]
  cases S.coerce slot.family slot.value false with
  | error failure => exact ⟨fun ⟨_, h⟩ => (nomatch h), fun ⟨_, h⟩ => (nomatch h)⟩
  | ok p => exact ⟨fun _ => ⟨p, rfl⟩, fun _ => ⟨_, rfl⟩⟩

/-- It fails as this does. -/
theorem take_eq_error_iff {slot : Slot P₁ P₂} {failure : Failure} :
    S.take slot = .error failure ↔ S.coerce slot.family slot.value false = .error failure := by
  rw [take]
  cases S.coerce slot.family slot.value false with
  | error e =>
    show Except.error e = Except.error failure ↔ _
    simp
  | ok p => exact ⟨fun h => (nomatch h), fun h => (nomatch h)⟩

/-- One argument is taken, and then the others. -/
theorem failsFirst_coerce {v : Value P₁ P₂} {next : f.Point P₁ P₂ → Except Failure α}
    (hnext : ∀ p, S.coerce f v false = .ok p → S.FailsFirst slots (next p)) :
    S.FailsFirst (⟨f, v⟩ :: slots) (S.coerce f v false >>= next) := by
  intro failure h
  rcases firstFailure_cons.mp h with h | ⟨h, hrest⟩
  · rw [take_eq_error_iff.mp h]
    rfl
  · obtain ⟨p, hp⟩ := take_eq_ok_iff.mp h
    have hfails := hnext p hp failure hrest
    rw [← hfails]
    exact congrArg (· >>= next) hp

/-- The members of a list are taken, and then the others. -/
theorem failsFirst_coerceAll {members : List (Value P₁ P₂)}
    {next : List (f.Point P₁ P₂) → Except Failure α}
    (hnext : ∀ points, S.coerceAll f members = .ok points → S.FailsFirst slots (next points)) :
    S.FailsFirst (members.map (Slot.mk f) ++ slots) (S.coerceAll f members >>= next) := by
  induction members generalizing next with
  | nil => exact hnext [] rfl
  | cons v rest ih =>
    rw [List.map_cons, List.cons_append, coerceAll_cons, bind_assoc]
    refine failsFirst_coerce fun p hp => ?_
    rw [bind_map_left]
    refine ih fun points hpoints => hnext (p :: points) ?_
    rw [coerceAll_cons, hp, hpoints]
    rfl

/-- The members of a list are the last that are taken. -/
theorem failsFirst_coerceAll_last {members : List (Value P₁ P₂)}
    (next : List (f.Point P₁ P₂) → Except Failure α) :
    S.FailsFirst (members.map (Slot.mk f)) (S.coerceAll f members >>= next) := by
  rw [← List.append_nil (members.map (Slot.mk f))]
  exact failsFirst_coerceAll fun points _ => failsFirst_nil _

/-- There is a sum of points, if there are any. -/
theorem exists_totalBy (plan : Plan) {points : List (f.Point P₁ P₂)} (hne : points ≠ []) :
    ∃ t, S.totalBy plan f points = .ok t := by
  cases plan with
  | sequential =>
    cases points with
    | nil => exact absurd rfl hne
    | cons p rest => exact ⟨_, rfl⟩
  | sharded w whole =>
    obtain ⟨n, hcount⟩ := Shard.Workers.exists_count whole points.length
    rw [totalBy, shardedTotal, if_neg (fun h => hne (List.isEmpty_iff.mp h)), Shard.sum,
      Shard.shards, hcount]
    exact ⟨_, rfl⟩

/-- The members of a list are taken and added, and then the others are taken. -/
theorem failsFirst_aggregate (plan : Plan) {members : List (Value P₁ P₂)} (hne : members ≠ [])
    {next : f.Point P₁ P₂ → Except Failure α} (hnext : ∀ t, S.FailsFirst slots (next t)) :
    S.FailsFirst (members.map (Slot.mk f) ++ slots)
      (S.aggregateMembersBy plan f members >>= next) := by
  rw [aggregateMembersBy_eq, bind_assoc]
  refine failsFirst_coerceAll fun points hpoints => ?_
  have hsome : points ≠ [] := by
    rintro rfl
    exact hne (eq_nil_of_mapM_eq_nil hpoints)
  obtain ⟨t, ht⟩ := exists_totalBy (S := S) plan hsome
  rw [ht]
  exact hnext t

/-! ## Sums -/

section

variable {values : Value P₁ P₂} {members : List (Value P₁ P₂)} (hmembers : S.items values = .ok members)
  {failure : Failure} (h : FirstFailure S.take (members.map (Slot.mk f)) failure) (plan : Plan)

include hmembers h

/-- A sum fails as the first member does that cannot be taken. -/
theorem aggregateBy_of_firstFailure : S.aggregateBy plan f values = .error failure := by
  rw [aggregateBy_eq, hmembers]
  show S.aggregateMembersBy plan f members = _
  rw [aggregateMembersBy_eq]
  exact failsFirst_coerceAll_last _ failure h

/-- So does a sum onto an element. -/
theorem aggregateWithBy_of_firstFailure (x : f.Point P₁ P₂) :
    S.aggregateWithBy plan f x values = .error failure := by
  cases plan with
  | sequential =>
    rw [aggregateWithBy, aggregateWith, hmembers]
    exact failsFirst_coerceAll_last _ failure h
  | sharded w whole =>
    have hne : ¬ members.isEmpty = true := by
      rw [List.isEmpty_iff]
      rintro rfl
      exact not_firstFailure_nil h
    have hshards : S.aggregateShards w f members = .error failure := by
      rw [aggregateShards_eq]
      exact failsFirst_coerceAll_last _ failure h
    rw [aggregateWithBy, shardedAggregateWith, hmembers]
    simp only [bind, Except.bind, if_neg hne, hshards]

end

/-! ## Foreign arguments -/

/-- Why a foreign argument is refused after others have been looked at: because it is foreign, if all
    others could be taken, or because of the first of them that could not. -/
structure Refuses (S : Suite P₁ P₂ T) (before : List (Slot P₁ P₂)) (slot : Slot P₁ P₂)
    (failure : Failure) : Prop where
  category : failure.category = .misuse .wrongType ∨ failure.IsOfPoint
  cause :
    (∀ s ∈ before, ∃ e, S.take s = .ok e) ∧
        failure = .wrongFamily slot.family slot.value.typeName ∨
      FirstFailure S.take before failure

/-- A value of another family is refused with the name of its type. -/
theorem take_of_isForeign {slot : Slot P₁ P₂} (h : slot.IsForeign) :
    S.take slot = .error (.wrongFamily slot.family slot.value.typeName) :=
  take_eq_error_iff.mpr (S.coerce_of_foreign h false)

/-- With a foreign argument among them, some slot cannot be taken: that one, or one before it. -/
theorem exists_firstFailure_of_isForeign {slot : Slot P₁ P₂} (h : slot.IsForeign)
    (before after : List (Slot P₁ P₂)) :
    ∃ failure, FirstFailure S.take (before ++ slot :: after) failure ∧
      ((∀ s ∈ before, ∃ e, S.take s = .ok e) ∧
          failure = .wrongFamily slot.family slot.value.typeName ∨
        FirstFailure S.take before failure) := by
  -- either something in front fails, or the foreign value is the first to do so
  cases hbefore : before.mapM S.take with
  | error failure =>
    have hfirst := mapM_eq_error_iff.mp hbefore
    exact ⟨failure, firstFailure_append.mpr (.inl hfirst), .inr hfirst⟩
  | ok elements =>
    have htaken : ∀ s ∈ before, ∃ e, S.take s = .ok e := by
      intro s hs
      obtain ⟨e, -, he⟩ := exists_mem_of_mapM hbefore hs
      exact ⟨e, he⟩
    have hslot : FirstFailure S.take (slot :: after)
        (.wrongFamily slot.family slot.value.typeName) :=
      firstFailure_cons.mpr (.inl (take_of_isForeign h))
    exact ⟨_, firstFailure_append.mpr (.inr ⟨htaken, hslot⟩), .inl ⟨htaken, rfl⟩⟩

end

/-! ## Checks -/

section

variable {S : Suite P₁ P₂ T}

theorem checkDistinct_of_match {keys messages : Value P₁ P₂} (h : S.Match keys messages)
    (check : ListCheck) : checkDistinct check (S.membersOf keys) (S.membersOf messages) = .ok () :=
  checkDistinct_eq_ok h.1 h.2

/-- Lists that match pass the check of the signatures. -/
theorem checkSignatures_of_match {keys signatures : Value P₁ P₂} (h : S.Match keys signatures)
    (check : ListCheck) :
    checkSignatures check (S.membersOf keys) (S.membersOf signatures) = .ok () :=
  if_neg (not_not.mpr h.1.symm)

variable [Monoid T] [DecidableEq T]

/-- In a check of keys and their messages the signature is taken first, and then the keys. -/
theorem failsFirst_verifyPairsBy (plan : Plan) {keys messages signature : Value P₁ P₂}
    (h : S.Match keys messages) :
    S.FailsFirst (⟨.signature, signature⟩ :: S.slotsOf .key keys)
      (S.verifyPairsBy plan (S.membersOf keys) signature (S.membersOf messages)) := by
  rw [verifyPairsBy_eq, checkDistinct_of_match h]
  exact failsFirst_coerce fun s _ => failsFirst_coerceAll_last _

/-- The batch takes its keys and then its proofs, and draws nothing until it has. -/
theorem batchVerify_of_firstFailure {keys proofs : Value P₁ P₂} (h : S.Match keys proofs)
    {failure : Failure}
    (hfailure : FirstFailure S.take (S.slotsOf .key keys ++ S.slotsOf .proof proofs) failure)
    (source : RandomSource) : S.batchVerify keys proofs source = (.error failure, source) := by
  have hmembers : S.FailsFirst (S.slotsOf .key keys ++ S.slotsOf .proof proofs)
      (S.batchMembers (S.membersOf keys) (S.membersOf proofs)) := by
    rw [batchMembers, if_neg (not_not.mpr h.1), if_neg (fun hnone => h.2 (List.isEmpty_iff.mp hnone))]
    exact failsFirst_coerceAll fun ks _ => failsFirst_coerceAll_last _
  rw [batchVerify, items_of_membersOf_ne_nil S h.2, items_of_membersOf_ne_nil S h.ne_nil]
  show S.batchVerifyLists _ _ source = _
  rw [batchVerifyLists, hmembers failure hfailure]

end

end Suite

namespace Backend

variable {T : Type} {B : Backend T}

/-- What a slot cannot be taken for. -/
theorem failsOnly_take (slot : Slot (Point Fq) (Point Fq2)) :
    FailsOnly (fun failure => failure.category = .misuse .wrongType ∨ failure.IsOfPoint)
      (B.suite.take slot) := by
  refine .map ?_ _
  by_cases h : slot.value.family? = some slot.family
  · exact (B.failsOnly_coerce false h).mono fun _ => .inr
  · rw [B.suite.coerce_of_foreign h]
    exact .error (.inl rfl)

/-- So it is not a failure that a check answers no for. -/
theorem not_answered_of_take {slot : Slot (Point Fq) (Point Fq2)} {failure : Failure}
    (h : B.suite.take slot = .error failure) :
    (failure.isError .inputLengthMismatch || failure.isError .emptyAggregation) = false := by
  rcases failsOnly_take slot failure h with hmisuse | hpoint
  · rw [Failure.isError, Failure.isError, hmisuse]
    rfl
  · have hlength : failure.isError .inputLengthMismatch = false :=
      hpoint.isError_eq_false fun k => by cases k <;> decide
    have hempty : failure.isError .emptyAggregation = false :=
      hpoint.isError_eq_false fun k => by cases k <;> decide
    rw [hlength, hempty]
    rfl

/-- A foreign argument is refused, or one before it. -/
theorem exists_refusal {slot : Slot (Point Fq) (Point Fq2)} (h : slot.IsForeign)
    (before after : List (Slot (Point Fq) (Point Fq2))) :
    ∃ failure, FirstFailure B.suite.take (before ++ slot :: after) failure ∧
      B.suite.Refuses before slot failure := by
  obtain ⟨failure, hfirst, hcause⟩ := Suite.exists_firstFailure_of_isForeign (S := B.suite) h before after
  refine ⟨failure, hfirst, ?_, hcause⟩
  obtain ⟨-, s, -, -, -, hs⟩ := hfirst
  exact failsOnly_take s failure hs

variable [Monoid T] [DecidableEq T]

/-- A check whose lists pass its tests fails as the first slot does that cannot be taken, and leaves the
    random source as it was. -/
theorem check_eq_of_firstFailure {c : Check (Point Fq) (Point Fq2)} (hpasses : B.suite.Passes c)
    {failure : Failure} (h : FirstFailure B.suite.take (B.suite.slots c) failure)
    (source : RandomSource) : B.suite.check c source = (.error failure, source) := by
  -- one case for each check: what it takes, in the order of its slots
  cases c with
  | signature signature key message =>
    exact congrArg (·, source) (Suite.failsFirst_coerce
      (fun s _ => Suite.failsFirst_coerce fun k _ => Suite.failsFirst_nil _) failure h)
  | key key signature message =>
    exact congrArg (·, source) (Suite.failsFirst_coerce
      (fun k _ => Suite.failsFirst_coerce fun s _ => Suite.failsFirst_nil _) failure h)
  | proof proof key =>
    exact congrArg (·, source) (Suite.failsFirst_coerce
      (fun p _ => Suite.failsFirst_coerce fun k _ => Suite.failsFirst_nil _) failure h)
  | possession key proof =>
    exact congrArg (·, source) (Suite.failsFirst_coerce
      (fun k _ => Suite.failsFirst_coerce fun p _ => Suite.failsFirst_nil _) failure h)
  | fastAggregate keys message signature =>
    refine congrArg (·, source) ?_
    rw [Suite.fastAggregateVerify_eq, Suite.items_of_membersOf_ne_nil _ hpasses]
    show (if _ then _ else _) = _
    rw [if_neg fun hnone => hpasses (List.isEmpty_iff.mp hnone)]
    refine Suite.failsFirst_coerce (fun s _ => ?_) failure h
    rw [Suite.aggregateMembersBy_eq, bind_assoc]
    exact Suite.failsFirst_coerceAll_last _
  | aggregate plan keys signatures message =>
    obtain ⟨hkeys, hsignatures⟩ := hpasses
    refine congrArg (·, source) ?_
    rw [Suite.verifyAggregateBy_eq, Suite.aggregateBy_eq, Suite.aggregateBy_eq,
      Suite.items_of_membersOf_ne_nil _ hkeys, Suite.items_of_membersOf_ne_nil _ hsignatures]
    refine Suite.failsFirst_aggregate plan hkeys (fun k => ?_) failure h
    show B.suite.FailsFirst _ (B.suite.aggregateMembersBy _ _ _ >>= _)
    rw [Suite.aggregateMembersBy_eq, bind_assoc]
    exact Suite.failsFirst_coerceAll_last _
  | failClosed keys messages signature =>
    have hfails : B.suite.verifyPairs (B.suite.membersOf keys) signature (B.suite.membersOf messages) =
        .error failure := Suite.failsFirst_verifyPairsBy .sequential hpasses failure h
    obtain ⟨-, slot, -, -, -, hslot⟩ := h
    refine congrArg (·, source) ?_
    rw [Suite.aggregateVerify, Suite.items_of_membersOf_ne_nil _ hpasses.2,
      Suite.items_of_membersOf_ne_nil _ hpasses.ne_nil]
    simp only [bind, Except.bind, hfails, not_answered_of_take hslot]
    rfl
  | distinctAggregated plan keys signature messages =>
    refine congrArg (·, source) ?_
    rw [Suite.verifyDistinctAggregatedBy_eq, Suite.items_of_membersOf_ne_nil _ hpasses.2,
      Suite.items_of_membersOf_ne_nil _ hpasses.ne_nil]
    exact Suite.failsFirst_verifyPairsBy plan hpasses failure h
  | distinct plan keys signatures messages =>
    obtain ⟨hmessages, hsignatures⟩ := hpasses
    refine congrArg (·, source) ?_
    rw [Suite.verifyDistinctBy_eq, Suite.items_of_membersOf_ne_nil _ hmessages.2,
      Suite.items_of_membersOf_ne_nil _ hsignatures.ne_nil,
      Suite.items_of_membersOf_ne_nil _ hmessages.ne_nil]
    simp only [bind, Except.bind, Suite.checkDistinct_of_match hmessages,
      Suite.checkSignatures_of_match hsignatures]
    refine Suite.failsFirst_aggregate plan hsignatures.ne_nil (fun s => ?_) failure h
    rw [Suite.verifyPairsBy_eq, Suite.checkDistinct_of_match hmessages, Suite.coerce_signature]
    exact Suite.failsFirst_coerceAll_last _
  | batch keys proofs => exact Suite.batchVerify_of_firstFailure hpasses h source

end Backend

/-! ## The suite that runs -/

/-- Families never mix.  A check whose lists pass its tests has no answer if any of its keys, signatures
    and proofs is foreign, in whatever place, and draws nothing from the random source.  A sum has no
    result if any of its members is foreign.  Both fail because of the foreign argument, or because of one
    that is taken before it. -/
theorem foreign_refused :
    (∀ (c : Check (Point Fq) (Point Fq2)) (source : RandomSource) before slot after,
      bls12381.Passes c → bls12381.slots c = before ++ slot :: after → slot.IsForeign →
      ∃ failure, bls12381.check c source = (.error failure, source) ∧
        bls12381.Refuses before slot failure) ∧
    ∀ (plan : Plan) (f : Family) (values : Value (Point Fq) (Point Fq2)) before v after,
      bls12381.items values = .ok (before ++ v :: after) → v.family? ≠ some f →
      ∃ failure, bls12381.aggregateBy plan f values = .error failure ∧
        (∀ x, bls12381.aggregateWithBy plan f x values = .error failure) ∧
        bls12381.Refuses (before.map (Slot.mk f)) ⟨f, v⟩ failure := by
  rw [bls12381_eq_suite]
  constructor
  · intro c source before slot after hpasses hslots hforeign
    -- the foreign value fails unless one before it has failed
    obtain ⟨failure, hfirst, hrefuses⟩ := Backend.exists_refusal hforeign before after
    rw [← hslots] at hfirst
    exact ⟨failure, Backend.check_eq_of_firstFailure hpasses hfirst source, hrefuses⟩
  · intro plan f values before v after hmembers hforeign
    have hslot : (Slot.mk f v).IsForeign := hforeign
    obtain ⟨failure, hfirst, hrefuses⟩ :=
      Backend.exists_refusal hslot (before.map (Slot.mk f)) (after.map (Slot.mk f))
    rw [← List.map_cons, ← List.map_append] at hfirst
    exact ⟨failure, Suite.aggregateBy_of_firstFailure hmembers hfirst plan,
      Suite.aggregateWithBy_of_firstFailure hmembers hfirst plan, hrefuses⟩

/-- A batch of the generator's key and of a signature in the place of a proof. -/
def mixedBatch : Check (Point Fq) (Point Fq2) :=
  .batch (.list [.element (.key generator)]) (.list [.element (.signature generator₂)])

/-- The batch fails with nothing drawn, and so does the sum of a proof and a signature as proofs. -/
theorem foreign_refused_mixed :
    bls12381.Passes mixedBatch ∧
    bls12381.slots mixedBatch =
      [⟨.key, .element (.key generator)⟩] ++ ⟨.proof, .element (.signature generator₂)⟩ :: [] ∧
    (⟨.proof, .element (.signature generator₂)⟩ : Slot (Point Fq) (Point Fq2)).IsForeign ∧
    bls12381.check mixedBatch ⟨[7], []⟩ =
      (.error (.wrongFamily .proof "SignatureProjective"), ⟨[7], []⟩) ∧
    ∃ failure, bls12381.aggregateBy .sequential .proof
        (.list ([.element (.proof generator₂)] ++ .element (.signature generator₂) :: [])) =
      .error failure := by
  have hpasses : bls12381.Passes mixedBatch := ⟨rfl, List.cons_ne_nil _ _⟩
  have hslots : bls12381.slots mixedBatch =
      [⟨.key, .element (.key generator)⟩] ++ ⟨.proof, .element (.signature generator₂)⟩ :: [] := rfl
  have hforeign : (Value.element (.signature generator₂) : Value (Point Fq) (Point Fq2)).family? ≠
      some .proof := by
    decide
  obtain ⟨hchecks, hsums⟩ := foreign_refused
  obtain ⟨failure, hcheck, -, hcause⟩ := hchecks mixedBatch ⟨[7], []⟩ _ _ _ hpasses hslots hforeign
  obtain ⟨failure', hsum, -⟩ :=
    hsums .sequential .proof (.list _) [.element (.proof generator₂)] _ [] rfl hforeign
  refine ⟨hpasses, hslots, hforeign, ?_, failure', hsum⟩
  rcases hcause with ⟨-, rfl⟩ | hbefore
  · exact hcheck
  · -- the key can be taken
    rcases firstFailure_cons.mp hbefore with h | ⟨-, h⟩
    · cases h
    · exact absurd h not_firstFailure_nil

end AggSig
