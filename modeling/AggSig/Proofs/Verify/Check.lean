/-
  The checks, as one kind of call.

  Every entry point that answers whether signatures or proofs are valid is a `Check`, together with its
  arguments as they are handed in; the element that a check is asked of may come in any form as well.
  `Suite.check` is the answer, and `Suite.keysOf` lists the public keys that the check is about.  Only a
  batch draws from the random source.

  A sum or a check may be worked out in one go or in shards, which is its `Plan`.  Either way the
  arguments are decoded first, and what is left is a matter of points: of their sum
  (`aggregateMembersBy_eq`), of the pairing equation for one key (`verifySignature_signature`), or of
  that for many (`verifyPairsBy_eq`).
-/
import AggSig.Possession
import AggSig.Proofs.Verify.Shards

namespace AggSig

variable {P₁ P₂ T : Type}

/-- How a sum or a check is worked out: in one go, or in shards under a limit that is a whole number or
    not set. -/
inductive Plan
  | sequential
  | sharded (w : Shard.Workers) (whole : w.limit.Whole)

/-- The name that the check of an aggregate signature for distinct messages has. -/
def Plan.totalCheck : Plan → ListCheck
  | .sequential => .distinctAggregated
  | .sharded .. => .shardedDistinctAggregated

/-- The name that the check of one signature for each key has. -/
def Plan.eachCheck : Plan → ListCheck
  | .sequential => .distinct
  | .sharded .. => .shardedDistinct

/-- A check with its arguments. -/
inductive Check (P₁ P₂ : Type)
  /-- A signature is asked whether it is one of a message by a key. -/
  | signature (signature key message : Value P₁ P₂)
  /-- A key is asked whether a signature is its own. -/
  | key (key signature message : Value P₁ P₂)
  /-- A proof is asked whether it is one for a key. -/
  | proof (proof key : Value P₁ P₂)
  /-- A key is asked whether a proof is one for it. -/
  | possession (key proof : Value P₁ P₂)
  | fastAggregate (keys message signature : Value P₁ P₂)
  | aggregate (plan : Plan) (keys signatures message : Value P₁ P₂)
  /-- The check of distinct messages that answers no where lists do not match or are empty. -/
  | failClosed (keys messages signature : Value P₁ P₂)
  | distinctAggregated (plan : Plan) (keys signature messages : Value P₁ P₂)
  | distinct (plan : Plan) (keys signatures messages : Value P₁ P₂)
  | batch (keys proofs : Value P₁ P₂)

/-- Whether the check is one of a single message for the sum of many keys. -/
def Check.addsKeys : Check P₁ P₂ → Bool
  | .fastAggregate .. | .aggregate .. => true
  | _ => false

namespace Suite

/-! ## Sums -/

section

variable (S : Suite P₁ P₂ T)

/-- The members of a value; none if it cannot be walked. -/
def membersOf (v : Value P₁ P₂) : List (Value P₁ P₂) := (S.items v).toOption.getD []

theorem membersOf_eq {v : Value P₁ P₂} {members : List (Value P₁ P₂)}
    (h : S.items v = .ok members) : S.membersOf v = members := by
  rw [membersOf, h]
  rfl

/-- The sum of the members of a value. -/
def aggregateBy (plan : Plan) (f : Family) (values : Value P₁ P₂) :
    Except Failure (f.Point P₁ P₂) :=
  match plan with
  | .sequential => S.aggregate f values
  | .sharded w _ => S.shardedAggregate w f values

/-- The element plus the members of a value. -/
def aggregateWithBy (plan : Plan) (f : Family) (p : f.Point P₁ P₂) (values : Value P₁ P₂) :
    Except Failure (f.Point P₁ P₂) :=
  match plan with
  | .sequential => S.aggregateWith f p values
  | .sharded w _ => S.shardedAggregateWith w f p values

/-- The sum of points, if there are any. -/
def totalBy (plan : Plan) (f : Family) (points : List (f.Point P₁ P₂)) :
    Except Failure (f.Point P₁ P₂) :=
  match plan with
  | .sequential => S.total f points
  | .sharded w _ => S.shardedTotal w f points

/-- The sum of the members of a list. -/
def aggregateMembersBy (plan : Plan) (f : Family) (members : List (Value P₁ P₂)) :
    Except Failure (f.Point P₁ P₂) :=
  match plan with
  | .sequential => S.aggregateList f members
  | .sharded w _ => S.aggregateShards w f members

/-- What is aggregated is coerced first and then added. -/
theorem aggregateMembersBy_eq (plan : Plan) (f : Family) (members : List (Value P₁ P₂)) :
    S.aggregateMembersBy plan f members = S.coerceAll f members >>= S.totalBy plan f := by
  cases plan with
  | sequential => exact S.aggregateList_eq f members
  | sharded w whole => rfl

/-- In either plan, the members are listed before they are added. -/
theorem aggregateBy_eq (plan : Plan) (f : Family) (values : Value P₁ P₂) :
    S.aggregateBy plan f values = S.items values >>= S.aggregateMembersBy plan f := by
  cases plan <;> rfl

/-- The sum of valid points is valid, and is read as the sum of what the points are read as. -/
theorem totalBy_spec (plan : Plan) {f : Family} {A : Type} [AddCommGroup A]
    (R : GroupLaw.Reading (S.group f).toGroupLaw A) {points : List (f.Point P₁ P₂)}
    (hne : points ≠ []) (hpoints : ∀ p ∈ points, R.Valid p) :
    ∃ t, S.totalBy plan f points = .ok t ∧ R.Valid t ∧ R.read t = (points.map R.read).sum := by
  cases plan with
  | sequential => exact S.total_spec R hne hpoints
  | sharded w whole => exact S.shardedTotal_spec R hne hpoints whole

section

variable {f : Family} {A : Type} [AddCommGroup A] (R : GroupLaw.Reading (S.group f).toGroupLaw A)
  {values : Value P₁ P₂} {members : List (Value P₁ P₂)} {points : List (f.Point P₁ P₂)}
  (hmembers : S.items values = .ok members) (hpoints : S.coerceAll f members = .ok points)
  (hvalid : ∀ p ∈ points, R.Valid p)

include hmembers hpoints hvalid

/-- The aggregate of values that are taken as valid points. -/
theorem aggregateBy_spec (plan : Plan) (hne : members ≠ []) :
    ∃ t, S.aggregateBy plan f values = .ok t ∧ R.Valid t ∧ R.read t = (points.map R.read).sum := by
  have hsome : points ≠ [] := by
    rintro rfl
    exact hne (eq_nil_of_mapM_eq_nil hpoints)
  obtain ⟨t, ht, hresult⟩ := S.totalBy_spec plan R hsome hvalid
  refine ⟨t, ?_, hresult⟩
  rw [aggregateBy_eq, hmembers]
  show S.aggregateMembersBy plan f members = .ok t
  rw [aggregateMembersBy_eq, hpoints]
  exact ht

/-- A valid point plus such values. -/
theorem aggregateWithBy_spec (plan : Plan) {x : f.Point P₁ P₂} (hx : R.Valid x) :
    ∃ t, S.aggregateWithBy plan f x values = .ok t ∧ R.Valid t ∧
      R.read t = R.read x + (points.map R.read).sum := by
  cases plan with
  | sequential =>
    obtain ⟨hsum, hread⟩ := R.sum_spec hvalid hx
    refine ⟨(S.group f).sum points x, ?_, hsum, hread⟩
    rw [aggregateWithBy, aggregateWith, hmembers]
    show S.aggregateOnto f x members = _
    rw [aggregateOnto, hpoints]
    rfl
  | sharded w whole =>
    cases members with
    | nil =>
      -- nothing to add: the element is given back as it is
      cases hpoints
      refine ⟨x, ?_, hx, (add_zero _).symm⟩
      rw [aggregateWithBy, shardedAggregateWith, hmembers]
      rfl
    | cons v rest =>
      have hsome : points ≠ [] := by
        rintro rfl
        exact List.cons_ne_nil v rest (eq_nil_of_mapM_eq_nil hpoints)
      obtain ⟨t, ht, htvalid, htread⟩ := S.shardedTotal_spec R hsome hvalid whole
      have hshards : S.aggregateShards w f (v :: rest) = .ok t := by
        rw [aggregateShards_eq, hpoints]
        exact ht
      refine ⟨(S.group f).add x t, ?_, R.valid_add hx htvalid, by rw [R.read_add hx htvalid, htread]⟩
      rw [aggregateWithBy, shardedAggregateWith, hmembers]
      show (S.aggregateShards w f (v :: rest) >>= fun t => .ok ((S.group f).sum [t] x)) = _
      rw [hshards]
      rfl

end

end

/-! ## Checks -/

section

variable [One T] [Mul T] [DecidableEq T] (S : Suite P₁ P₂ T)

/-- The check of one message for the sum of the keys and the sum of the signatures. -/
def verifyAggregateBy (plan : Plan) (keys signatures message : Value P₁ P₂) : Except Failure Bool :=
  match plan with
  | .sequential => S.verifyAggregate keys signatures message
  | .sharded w _ => S.shardedVerifyAggregate w keys signatures message

/-- The check of an aggregate signature for the members of two lists. -/
def verifyPairsBy (plan : Plan) (keys : List (Value P₁ P₂)) (signature : Value P₁ P₂)
    (messages : List (Value P₁ P₂)) : Except Failure Bool :=
  match plan with
  | .sequential => S.verifyPairs keys signature messages
  | .sharded w _ => S.shardedVerifyPairs w keys signature messages

/-- The check of an aggregate signature for keys and their messages. -/
def verifyDistinctAggregatedBy (plan : Plan) (keys signature messages : Value P₁ P₂) :
    Except Failure Bool :=
  match plan with
  | .sequential => S.verifyDistinctAggregated keys signature messages
  | .sharded w _ => S.shardedVerifyDistinctAggregated w keys signature messages

/-- The check of one signature for each key and its message. -/
def verifyDistinctBy (plan : Plan) (keys signatures messages : Value P₁ P₂) : Except Failure Bool :=
  match plan with
  | .sequential => S.verifyDistinct keys signatures messages
  | .sharded w _ => S.shardedVerifyDistinct w keys signatures messages

/-- The answer of a check, and what is left of the random source. -/
def check (c : Check P₁ P₂) : Drawing (Except Failure Bool) := fun source =>
  match c with
  | .signature signature key message =>
    (do S.verifyWith (← S.coerce .signature signature false) key message, source)
  | .key key signature message =>
    (do S.verifySignature (← S.coerce .key key false) signature message, source)
  | .proof proof key => (do S.verifyPossessionWith (← S.coerce .proof proof false) key, source)
  | .possession key proof => (do S.verifyPossession (← S.coerce .key key false) proof, source)
  | .fastAggregate keys message signature =>
    (S.fastAggregateVerify keys message signature, source)
  | .aggregate plan keys signatures message =>
    (S.verifyAggregateBy plan keys signatures message, source)
  | .failClosed keys messages signature => (S.aggregateVerify keys messages signature, source)
  | .distinctAggregated plan keys signature messages =>
    (S.verifyDistinctAggregatedBy plan keys signature messages, source)
  | .distinct plan keys signatures messages =>
    (S.verifyDistinctBy plan keys signatures messages, source)
  | .batch keys proofs => S.batchVerify keys proofs source

/-- The public keys that a check is about. -/
def keysOf : Check P₁ P₂ → List (Value P₁ P₂)
  | .signature _ key _ | .key key _ _ | .proof _ key | .possession key _ => [key]
  | .fastAggregate keys _ _ | .aggregate _ keys _ _ | .failClosed keys _ _
  | .distinctAggregated _ keys _ _ | .distinct _ keys _ _ | .batch keys _ => S.membersOf keys

/-! ## What is left to check once the arguments are decoded -/

/-- A signature that is an element is not decoded: the message is hashed at once. -/
theorem verifySignature_signature (key : P₁) (s : P₂) (message : Value P₁ P₂) :
    S.verifySignature key (.element (.signature s)) message =
      S.hashMessage message >>= fun h => S.coreVerify key h s := by
  rw [verifySignature, coerce_signature]
  rfl

/-- The keys are listed, then the signature is taken, then the keys are added. -/
theorem fastAggregateVerify_eq (keys message signature : Value P₁ P₂) :
    S.fastAggregateVerify keys message signature =
      S.items keys >>= fun ks =>
        if ks.isEmpty then .ok false
        else S.coerce .signature signature false >>= fun s =>
          S.aggregateMembersBy .sequential .key ks >>= fun k =>
            S.verifySignature k (.element (.signature s)) message := rfl

/-- In either plan, both lists are added, and the sums are checked like a key and a signature. -/
theorem verifyAggregateBy_eq (plan : Plan) (keys signatures message : Value P₁ P₂) :
    S.verifyAggregateBy plan keys signatures message =
      S.aggregateBy plan .key keys >>= fun k =>
        S.aggregateBy plan .signature signatures >>= fun s =>
          S.verifySignature k (.element (.signature s)) message := by
  cases plan <;> rfl

/-- In either plan, the lists are made before they are compared. -/
theorem verifyDistinctAggregatedBy_eq (plan : Plan) (keys signature messages : Value P₁ P₂) :
    S.verifyDistinctAggregatedBy plan keys signature messages =
      S.items keys >>= fun ks =>
        S.items messages >>= fun ms => S.verifyPairsBy plan ks signature ms := by
  cases plan <;> rfl

/-- In either plan, the lists are compared before the signatures are added. -/
theorem verifyDistinctBy_eq (plan : Plan) (keys signatures messages : Value P₁ P₂) :
    S.verifyDistinctBy plan keys signatures messages =
      S.items keys >>= fun ks => S.items signatures >>= fun ss => S.items messages >>= fun ms =>
        checkDistinct plan.eachCheck ks ms >>= fun _ =>
          checkSignatures plan.eachCheck ks ss >>= fun _ =>
            S.aggregateMembersBy plan .signature ss >>= fun s =>
              S.verifyPairsBy plan ks (.element (.signature s)) ms := by
  cases plan <;> rfl

end

/-- For distinct messages the lengths are looked at, then the signature, then the keys. -/
theorem verifyPairsBy_eq [Monoid T] [DecidableEq T] (S : Suite P₁ P₂ T) (plan : Plan)
    (keys : List (Value P₁ P₂)) (signature : Value P₁ P₂) (messages : List (Value P₁ P₂)) :
    S.verifyPairsBy plan keys signature messages =
      checkDistinct plan.totalCheck keys messages >>= fun _ =>
        S.coerce .signature signature false >>= fun s =>
          S.coerceAll .key keys >>= fun points => S.checkPoints points messages s := by
  cases plan with
  | sequential => exact S.verifyPairs_eq keys signature messages
  | sharded w whole =>
    by_cases hlength : keys.length = messages.length
    · exact S.shardedVerifyPairs_eq whole hlength signature
    · -- lists that do not match are refused before anything else
      have hfails : checkDistinct .shardedDistinctAggregated keys messages =
          .error (.lengthsDiffer .shardedDistinctAggregated keys.length .messages messages.length) :=
        if_pos hlength
      rw [verifyPairsBy, shardedVerifyPairs, Plan.totalCheck, hfails]
      rfl

end Suite

end AggSig
