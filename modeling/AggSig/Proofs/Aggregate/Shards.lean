/-
  Aggregation in shards gives what aggregation gives.

  Both coerce every member of the list first, in its order, so that both fail as the first member does
  that is refused (`aggregateList_eq_error_iff`, `aggregateShards_eq_error_iff`).  What is left is a sum
  of valid points.  One starts from the first of them; the other adds up every shard from the identity,
  and then the partial sums.  Both stand for the sum of the elements that the points stand for
  (`shardedTotal_agrees`).

  `shardedAggregate_agrees` says so of the suite that runs, for all three families.
-/
import AggSig.Proofs.Element.Alike
import AggSig.Proofs.Verify.Arguments

namespace AggSig

namespace Suite

variable {P₁ P₂ T : Type} (S : Suite P₁ P₂ T) {w : Shard.Workers} {f : Family}

/-! ## Failures -/

/-- The failure of the first member of a list that is refused. -/
def Refused (f : Family) (values : List (Value P₁ P₂)) (failure : Failure) : Prop :=
  FirstFailure (fun v => S.coerce f v false) values failure

/-- Coercing a list that is not empty and then adding fails as coercing does. -/
theorem bind_eq_error_iff_refused {values : List (Value P₁ P₂)} {failure : Failure} {β : Type}
    {next : List (f.Point P₁ P₂) → Except Failure β} (hempty : next [] = .error (.nothingToAggregate f))
    (hnext : ∀ p rest, ∃ result, next (p :: rest) = .ok result) :
    S.coerceAll f values >>= next = .error failure ↔
      values = [] ∧ failure = .nothingToAggregate f ∨ S.Refused f values failure := by
  -- what comes after the members is looked at fails on the empty list only
  cases values with
  | nil =>
    have hnone : ¬ S.Refused f [] failure := not_firstFailure_nil
    show next [] = .error failure ↔ _
    rw [hempty]
    simp [hnone, eq_comm (a := failure)]
  | cons v rest =>
    have hsome : ∀ points, S.coerceAll f (v :: rest) = .ok points → ∃ b, next points = .ok b := by
      rintro (_ | ⟨p, others⟩) h
      · exact absurd (eq_nil_of_mapM_eq_nil h) (List.cons_ne_nil v rest)
      · exact hnext p others
    rw [bind_eq_error_iff hsome, coerceAll, mapM_eq_error_iff, Refused]
    simp

/-- A sum fails on an empty list, and otherwise as its first refused member does. -/
theorem aggregateList_eq_error_iff {values : List (Value P₁ P₂)} {failure : Failure} :
    S.aggregateList f values = .error failure ↔
      values = [] ∧ failure = .nothingToAggregate f ∨ S.Refused f values failure := by
  rw [aggregateList_eq]
  exact S.bind_eq_error_iff_refused rfl fun p rest => ⟨_, rfl⟩

/-- So does the sum over shards. -/
theorem aggregateShards_eq_error_iff (hw : w.limit.Whole) {values : List (Value P₁ P₂)}
    {failure : Failure} :
    S.aggregateShards w f values = .error failure ↔
      values = [] ∧ failure = .nothingToAggregate f ∨ S.Refused f values failure := by
  rw [aggregateShards_eq]
  exact S.bind_eq_error_iff_refused rfl fun p rest => Shard.exists_sum _ hw (p :: rest) _

/-! ## Sums -/

section

variable {S} {A : Type} [AddCommGroup A] (I : (S.group f).Interpretation f.side A)

include I

/-- Both sums stand for one element. -/
theorem shardedTotal_agrees (hw : w.limit.Whole) {points : List (f.Point P₁ P₂)}
    (hpoints : ∀ p ∈ points, I.Valid p) :
    Agree I.Coincide (S.shardedTotal w f points) (S.total f points) := by
  by_cases hne : points = []
  · subst hne
    exact .error rfl
  · obtain ⟨t, ht, hvalid, hread⟩ := S.shardedTotal_spec I.toReading hne hpoints hw
    obtain ⟨t', ht', hvalid', hread'⟩ := S.total_spec I.toReading hne hpoints
    rw [ht, ht']
    exact .ok ⟨hvalid, hvalid', hread.trans hread'.symm⟩

variable {members : List (Value P₁ P₂)} (hmembers : ∀ r, .element (.of f r) ∈ members → I.Valid r)

include hmembers

/-- Both sums come to one element, or fail in one way. -/
theorem aggregateShards_agrees (hw : w.limit.Whole) :
    Agree I.Coincide (S.aggregateShards w f members) (S.aggregateList f members) := by
  rw [aggregateList_eq, aggregateShards_eq]
  apply Agree.bind_left
  intro points hpoints
  exact shardedTotal_agrees I hw (valid_of_coerceAll I hmembers hpoints)

/-- An element plus the sum over shards stands for the same as the element plus one member after the
    other. -/
theorem shardedAggregateWith_agrees (hw : w.limit.Whole) {x : f.Point P₁ P₂} (hx : I.Valid x) :
    Agree I.Coincide (S.shardedAggregateWith w f x (.list members))
      (S.aggregateWith f x (.list members)) := by
  cases members with
  | nil => exact .ok ⟨hx, hx, rfl⟩
  | cons v rest =>
    show Agree I.Coincide
      ((S.coerceAll f (v :: rest) >>= S.shardedTotal w f) >>= fun t => .ok ((S.group f).add x t))
      (S.coerceAll f (v :: rest) >>= fun points => .ok ((S.group f).sum points x))
    rw [bind_assoc]
    apply Agree.bind_left
    intro points hpoints
    have hvalid := valid_of_coerceAll I hmembers hpoints
    have hne : points ≠ [] := by
      rintro rfl
      exact List.cons_ne_nil v rest (eq_nil_of_mapM_eq_nil hpoints)
    -- the sums of the shards are added to the element last, those of the list one by one
    obtain ⟨t, ht, htvalid, htread⟩ := S.shardedTotal_spec I.toReading hne hvalid hw
    obtain ⟨hsum, hread⟩ := I.sum_spec hvalid hx
    rw [ht]
    refine .ok ⟨I.valid_add hx htvalid, hsum, ?_⟩
    rw [I.read_add hx htvalid, htread, hread]

end

/-! ## Failures of sums onto an element -/

/-- A sum onto an element fails as its first refused member does. -/
theorem aggregateWith_eq_error_iff {x : f.Point P₁ P₂} {members : List (Value P₁ P₂)}
    {failure : Failure} :
    S.aggregateWith f x (.list members) = .error failure ↔ S.Refused f members failure := by
  show S.coerceAll f members >>= (fun points => .ok ((S.group f).sum points x)) = _ ↔ _
  rw [bind_eq_error_iff fun points _ => ⟨_, rfl⟩]
  exact mapM_eq_error_iff

/-- So does the one over shards, which an empty list does not fail either. -/
theorem shardedAggregateWith_eq_error_iff (hw : w.limit.Whole) {x : f.Point P₁ P₂}
    {members : List (Value P₁ P₂)} {failure : Failure} :
    S.shardedAggregateWith w f x (.list members) = .error failure ↔ S.Refused f members failure := by
  cases members with
  | nil => exact iff_of_false (fun h => nomatch h) not_firstFailure_nil
  | cons v rest =>
    show S.aggregateShards w f (v :: rest) >>= (fun t => .ok ((S.group f).add x t)) = _ ↔ _
    rw [bind_eq_error_iff fun t _ => ⟨_, rfl⟩, S.aggregateShards_eq_error_iff hw]
    simp

end Suite

/-! ## The suite that runs -/

/-- For every family, every list whose elements of that family are members of the subgroup, and every
    limit of workers that is a whole number or not set: aggregation in shards and aggregation give
    elements that are alike, or both fail, for an empty list and otherwise as the first member does that
    is refused.  The same holds of sums onto a member of the subgroup, which an empty list does not make
    fail. -/
theorem shardedAggregate_agrees {w : Shard.Workers} (hw : w.limit.Whole) (f : Family)
    {members : List (Value (Point Fq) (Point Fq2))}
    (hmembers : ∀ p, .element (.of f p) ∈ members → MemberPoint f p) :
    Agree (fun p r => bls12381.Alike (.of f p) (.of f r))
        (bls12381.shardedAggregate w f (.list members)) (bls12381.aggregate f (.list members)) ∧
      (∀ failure,
        (bls12381.shardedAggregate w f (.list members) = .error failure ↔
          members = [] ∧ failure = .nothingToAggregate f ∨ bls12381.Refused f members failure) ∧
        (bls12381.aggregate f (.list members) = .error failure ↔
          members = [] ∧ failure = .nothingToAggregate f ∨ bls12381.Refused f members failure)) ∧
      ∀ x, MemberPoint f x →
        Agree (fun p r => bls12381.Alike (.of f p) (.of f r))
            (bls12381.shardedAggregateWith w f x (.list members))
            (bls12381.aggregateWith f x (.list members)) ∧
          ∀ failure,
            (bls12381.shardedAggregateWith w f x (.list members) = .error failure ↔
              bls12381.Refused f members failure) ∧
            (bls12381.aggregateWith f x (.list members) = .error failure ↔
              bls12381.Refused f members failure) := by
  -- neither the hash nor the pairing matters
  rw [bls12381_eq_suite]
  generalize (⟨ToCurve.hash, Pairing.pair, Pairing.finalExponentiation⟩ : Backend Fq12) = B
  have hvalid : ∀ r, .element (.of f r) ∈ members → (B.interpretation f).Valid r := fun r hr =>
    B.valid_interpretation.mpr (hmembers r hr)
  have halike : ∀ p r, (B.interpretation f).Coincide p r → B.suite.Alike (.of f p) (.of f r) :=
    fun p r h => Suite.alike_of_coincide (B.interpretation f) h
  refine ⟨?_, ?_, ?_⟩
  · exact (Suite.aggregateShards_agrees (B.interpretation f) hvalid hw).mono halike
  · intro failure
    exact ⟨B.suite.aggregateShards_eq_error_iff hw, B.suite.aggregateList_eq_error_iff⟩
  · intro x hx
    have hx' := B.valid_interpretation.mpr hx
    refine ⟨?_, ?_⟩
    · exact (Suite.shardedAggregateWith_agrees (B.interpretation f) hvalid hw hx').mono halike
    · intro failure
      exact ⟨B.suite.shardedAggregateWith_eq_error_iff hw, B.suite.aggregateWith_eq_error_iff⟩

/-- Public keys of which two cancel each other out, and a wire value that is none. -/
def mixedKeys : List (Value (Point Fq) (Point Fq2)) :=
  [.element (.key generator), .element (.key generator.neg), .element (.key generator),
    .wire (Wire.zero .key .compressed)]

/-- They are aggregated by two workers as by none, also onto a key. -/
theorem shardedAggregate_agrees_mixedKeys :
    Shard.Limit.Whole (.number (.whole 2)) ∧
      (∀ p, .element (.of .key p) ∈ mixedKeys → MemberPoint .key p) ∧
      Agree (fun p r => bls12381.Alike (.key p) (.key r))
        (bls12381.shardedAggregate ⟨.number (.whole 2), 4⟩ .key (.list mixedKeys))
        (bls12381.aggregate .key (.list mixedKeys)) ∧
      MemberPoint .key generator ∧
      Agree (fun p r => bls12381.Alike (.key p) (.key r))
        (bls12381.shardedAggregateWith ⟨.number (.whole 2), 4⟩ .key generator (.list mixedKeys))
        (bls12381.aggregateWith .key generator (.list mixedKeys)) := by
  have hw : Shard.Limit.Whole (.number (.whole 2)) := .inr ⟨2, rfl⟩
  have hmembers : ∀ p, .element (.of .key p) ∈ mixedKeys → MemberPoint .key p := by
    intro p hp
    have hcases : p = generator ∨ p = generator.neg ∨ p = generator := by
      simpa [mixedKeys, Element.of] using hp
    rcases hcases with rfl | rfl | rfl
    · exact member_generator
    · exact (neg_spec₁ member_generator).1
    · exact member_generator
  obtain ⟨halone, -, honto⟩ :=
    shardedAggregate_agrees (w := ⟨.number (.whole 2), 4⟩) hw .key hmembers
  exact ⟨hw, hmembers, halone, member_generator, (honto generator member_generator).1⟩

end AggSig
