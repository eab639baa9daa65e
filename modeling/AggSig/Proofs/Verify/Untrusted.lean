/-
  Bytes that are not trusted cause none but the library's own failures.

  What comes from outside is a wire value with any bytes at all, or an element that is a member of its
  subgroup already (`Arrives`).  Either it is refused with a failure of the library's own kinds, or it is
  taken as a member (`Backend.failsOnly_coerce_bind`), and members have members for their sums
  (`Backend.gives_totalBy`).

  So every point that reaches the pairing is on its curve, those that messages and keys hash to included,
  and such pairings are defined (`Backend.Defined`).  What a check answers about points is therefore an
  answer, whatever the points are (`Backend.exists_pairingCheck`), and all that can fail is the lengths of
  lists, empty sums and the decoding of arguments.
-/
import AggSig.Proofs.Hash.OnCurve
import AggSig.Proofs.Key.Pair
import AggSig.Proofs.Verify.Order

namespace AggSig

/-! ## What comes from outside -/

/-- A wire value of the family, whatever its bytes are, or an element of it that is a member. -/
inductive Arrives (f : Family) : Value (Point Fq) (Point Fq2) → Prop
  | wire (w : Wire) : w.family = f → Arrives f (.wire w)
  | element (p : f.Point (Point Fq) (Point Fq2)) : MemberPoint f p → Arrives f (.element (.of f p))

/-- What arrives is of its family. -/
theorem Arrives.family?_eq {f : Family} {v : Value (Point Fq) (Point Fq2)} (h : Arrives f v) :
    v.family? = some f := by
  cases h with
  | wire w hw => exact congrArg some hw
  | element p => exact congrArg some (Element.family_of f p)

/-- What it is taken as is a member. -/
theorem Arrives.memberPoint {T : Type} {B : Backend T} {f : Family} {v : Value (Point Fq) (Point Fq2)}
    (h : Arrives f v) {p : f.Point (Point Fq) (Point Fq2)} (hp : B.suite.coerce f v false = .ok p) :
    MemberPoint f p := by
  cases h with
  | wire w hw =>
    rw [← B.valid_interpretation]
    refine Suite.valid_of_coerce (B.interpretation f) ?_ hp
    intro r hr
    cases hr
  | element r hr =>
    rw [Suite.coerce_of] at hp
    cases hp
    exact hr

/-- The computation fails in one of the library's own ways, or gives a member, which has a wire value of
    each form. -/
inductive Suite.Gives {T : Type} (S : Suite (Point Fq) (Point Fq2) T) (f : Family) :
    Except Failure (f.Point (Point Fq) (Point Fq2)) → Prop
  | error {failure : Failure} : failure.IsReported → Gives S f (.error failure)
  | member {p : f.Point (Point Fq) (Point Fq2)} : MemberPoint f p →
      (∀ form, ∃ w, S.toForm form (.of f p) = .ok w) → Gives S f (.ok p)

/-- What is done with a member is looked at where there is one. -/
theorem Suite.Gives.failsOnly_bind {T α : Type} {S : Suite (Point Fq) (Point Fq2) T} {f : Family}
    {x : Except Failure (f.Point (Point Fq) (Point Fq2))} (h : S.Gives f x)
    {next : f.Point (Point Fq) (Point Fq2) → Except Failure α}
    (hnext : ∀ p, MemberPoint f p → FailsOnly Failure.IsReported (next p)) :
    FailsOnly Failure.IsReported (x >>= next) := by
  cases h with
  | error hfailure => exact .error hfailure
  | member hp _ => exact hnext _ hp

/-- The arguments of a check that are walked. -/
def Check.lists {P₁ P₂ : Type} : Check P₁ P₂ → List (Value P₁ P₂)
  | .signature .. | .key .. | .proof .. | .possession .. => []
  | .fastAggregate keys _ _ => [keys]
  | .aggregate _ keys signatures _ => [keys, signatures]
  | .failClosed keys messages _ | .distinctAggregated _ keys _ messages => [keys, messages]
  | .distinct _ keys signatures messages => [keys, signatures, messages]
  | .batch keys proofs => [keys, proofs]

namespace Suite

variable {T : Type} (S : Suite (Point Fq) (Point Fq2) T)

/-- The messages that a check is about. -/
def messagesOf : Check (Point Fq) (Point Fq2) → List (Value (Point Fq) (Point Fq2))
  | .signature _ _ message | .key _ _ message | .fastAggregate _ message _
  | .aggregate _ _ _ message => [message]
  | .proof .. | .possession .. | .batch .. => []
  | .failClosed _ messages _ | .distinctAggregated _ _ _ messages
  | .distinct _ _ _ messages => S.membersOf messages

/-- The lists of a check can be walked, of whatever length they are, its keys, signatures and proofs are
    of the families that are expected, and its messages are byte strings. -/
structure Untrusted (c : Check (Point Fq) (Point Fq2)) : Prop where
  walkable : ∀ v ∈ c.lists, ∃ members, S.items v = .ok members
  arrives : ∀ slot ∈ S.slots c, Arrives slot.family slot.value
  message : ∀ m ∈ S.messagesOf c, m.IsByteString

/-- The members of a list arrive if the slots of the list do. -/
theorem arrives_of_slotsOf {S : Suite (Point Fq) (Point Fq2) T} {f : Family}
    {values : Value (Point Fq) (Point Fq2)} {members : List (Value (Point Fq) (Point Fq2))}
    (h : ∀ slot ∈ S.slotsOf f values, Arrives slot.family slot.value)
    (hmembers : S.items values = .ok members) : ∀ v ∈ members, Arrives f v := by
  rw [← S.membersOf_eq hmembers]
  exact fun v hv => h ⟨f, v⟩ (List.mem_map_of_mem hv)

/-- The answer of a batch: its members are taken, and then checked with the weights that are drawn. -/
theorem batchVerifyLists_fst {P₁ P₂ T : Type} [One T] [Mul T] [DecidableEq T] (S : Suite P₁ P₂ T)
    (keys proofs : List (Value P₁ P₂)) (source : RandomSource) :
    (S.batchVerifyLists keys proofs source).1 =
      S.batchMembers keys proofs >>= fun members =>
        if members.1.any S.group₁.isIdentity then .ok false
        else S.weightedCheck members.1 members.2
          ((RandomSource.several weightBound members.1.length source).1.map (· + 1)) := by
  rw [batchVerifyLists]
  cases S.batchMembers keys proofs with
  | error failure => rfl
  | ok members =>
    simp only [bind, Except.bind]
    split <;> rfl

end Suite

/-! ## Points -/

/-- Multiples of valid points are valid. -/
theorem GroupLaw.Reading.valid_zipWith_multiply {P : Type} {G : GroupLaw P} {A : Type} [AddCommGroup A]
    (R : Reading G A) {ps : List P} (hps : ∀ p ∈ ps, R.Valid p) (ns : List Nat) :
    ∀ r ∈ List.zipWith G.multiply ps ns, R.Valid r := by
  induction ps generalizing ns with
  | nil => exact fun r hr => nomatch hr
  | cons p rest ih =>
    obtain ⟨hp, hrest⟩ := List.forall_mem_cons.mp hps
    cases ns with
    | nil => exact fun r hr => nomatch hr
    | cons n ns => exact List.forall_mem_cons.mpr ⟨R.valid_multiply hp n, ih hrest ns⟩

namespace Backend

variable {T : Type}

/-- A backend whose hashes are on the second curve and whose pairing has a value for all points of the
    two curves. -/
structure Defined (B : Backend T) : Prop where
  onCurve_hash (tag : Tag) (data : Bytes) : (B.hash tag data).onCurve b₂ = true
  exists_pair {h : Point Fq2} {k : Point Fq} : h.onCurve b₂ = true → k.onCurve b₁ = true →
    ∃ t, B.pair h k = .ok t

/-- Whether both points of a pair are on their curves. -/
def OnCurves (pair : Point Fq2 × Point Fq) : Prop :=
  pair.1.onCurve b₂ = true ∧ pair.2.onCurve b₁ = true

section

variable {B : Backend T} (hB : B.Defined)

include hB

/-- A byte string can be hashed. -/
theorem exists_hashMessage {m : Value (Point Fq) (Point Fq2)} (hm : m.IsByteString) :
    ∃ h, B.suite.hashMessage m = .ok h ∧ h.onCurve b₂ = true := by
  obtain ⟨data, hdata⟩ := hm
  refine ⟨B.hash .message data, ?_, hB.onCurve_hash .message data⟩
  rw [Suite.hashMessage, Suite.bytesOf_of_content? _ hdata]
  rfl

/-- The point of a key is on the curve. -/
theorem onCurve_possessionPoint (k : Point Fq) : (B.possessionPoint k).onCurve b₂ = true := by
  rw [possessionPoint]
  split
  · exact hB.onCurve_hash .possession _
  · rfl

end

section

variable [One T] [Mul T] {B : Backend T} (hB : B.Defined)

include hB

/-- A product of pairings of points on their curves is there. -/
theorem exists_pairingProduct {pairs : List (Point Fq2 × Point Fq)} (h : ∀ pair ∈ pairs, OnCurves pair) :
    ∃ t, B.suite.pairingProduct pairs = .ok t := by
  rw [Suite.pairingProduct]
  -- on the pairs; the product that they follow on does not matter
  generalize (1 : T) = start
  induction pairs generalizing start with
  | nil => exact ⟨start, rfl⟩
  | cons pair rest ih =>
    obtain ⟨hpair, hrest⟩ := List.forall_mem_cons.mp h
    obtain ⟨t, ht⟩ := hB.exists_pair hpair.1 hpair.2
    have hpair' : B.suite.pair pair.1 pair.2 = .ok t := ht
    obtain ⟨total, htotal⟩ := ih hrest (start * t)
    refine ⟨total, ?_⟩
    rw [List.foldlM_cons]
    simp only [hpair']
    exact htotal

variable [DecidableEq T]

/-- Pairs of points and members, and one more pair with the reflected generator, have an answer. -/
theorem exists_pairingCheck {hashes : List (Point Fq2)} {keys : List (Point Fq)} {s : Point Fq2}
    (hhashes : ∀ h ∈ hashes, h.onCurve b₂ = true) (hkeys : ∀ k ∈ keys, coding₁.Member k)
    (hs : coding₂.Member s) :
    ∃ answer, B.suite.pairingCheck (hashes.zip keys ++ [(s, B.suite.generatorNeg)]) = .ok answer := by
  have hpairs : ∀ pair ∈ hashes.zip keys ++ [(s, B.suite.generatorNeg)], OnCurves pair := by
    intro pair hpair
    rcases List.mem_append.mp hpair with hpair | hpair
    · obtain ⟨h, k⟩ := pair
      exact ⟨hhashes h (List.of_mem_zip hpair).1, (hkeys k (List.of_mem_zip hpair).2).1⟩
    · obtain rfl := List.mem_singleton.mp hpair
      exact ⟨hs.1, B.member_generatorNeg.1.1⟩
  obtain ⟨t, ht⟩ := exists_pairingProduct hB hpairs
  exact ⟨_, map_eq_ok.mpr ⟨t, ht, rfl⟩⟩

/-- The innermost check answers. -/
theorem exists_coreVerify {key : Point Fq} {h s : Point Fq2} (hkey : coding₁.Member key)
    (hh : h.onCurve b₂ = true) (hs : coding₂.Member s) :
    ∃ answer, B.suite.coreVerify key h s = .ok answer := by
  rw [Suite.coreVerify]
  split
  · exact ⟨false, rfl⟩
  · exact exists_pairingCheck hB (List.forall_mem_singleton.mpr hh)
      (List.forall_mem_singleton.mpr hkey) hs

/-- So does that of a signature. -/
theorem exists_verifySignature {key : Point Fq} {s : Point Fq2} {m : Value (Point Fq) (Point Fq2)}
    (hkey : coding₁.Member key) (hs : coding₂.Member s) (hm : m.IsByteString) :
    ∃ answer, B.suite.verifySignature key (.element (.signature s)) m = .ok answer := by
  obtain ⟨h, hhash, hcurve⟩ := exists_hashMessage hB hm
  rw [Suite.verifySignature_signature, hhash]
  exact exists_coreVerify hB hkey hcurve hs

/-- So does that of a proof of possession. -/
theorem exists_verifyPossession {key : Point Fq} {p : Point Fq2} (hkey : coding₁.Member key)
    (hp : coding₂.Member p) :
    ∃ answer, B.suite.verifyPossession key (.element (.proof p)) = .ok answer := by
  rw [Suite.verifyPossession, Suite.coerce_proof, B.hashKey_eq]
  simp only [bind, Except.bind]
  split
  · exact ⟨false, rfl⟩
  · exact exists_coreVerify hB hkey (onCurve_possessionPoint hB key) hp

/-- So does that of distinct messages. -/
theorem exists_checkPoints {keys : List (Point Fq)} {messages : List (Value (Point Fq) (Point Fq2))}
    {s : Point Fq2} (hkeys : ∀ k ∈ keys, coding₁.Member k) (hs : coding₂.Member s)
    (hmessages : ∀ m ∈ messages, m.IsByteString) :
    ∃ answer, B.suite.checkPoints keys messages s = .ok answer := by
  rw [Suite.checkPoints]
  split
  · exact ⟨false, rfl⟩
  -- byte strings have bytes; their points are hashed onto the curve
  · cases hcontents : messages.mapM B.suite.bytesOf with
    | error failure =>
      obtain ⟨before, m, after, rfl, -, hm⟩ := mapM_eq_error_iff.mp hcontents
      obtain ⟨data, hdata⟩ := hmessages m (List.mem_append_right before List.mem_cons_self)
      cases hm.symm.trans (Suite.bytesOf_of_content? _ hdata)
    | ok contents =>
      have hpairs : ∀ pair ∈ (contents.zip keys).map fun item => (B.hash .message item.1, item.2),
          OnCurves pair :=
        List.forall_mem_map.mpr fun item hitem =>
          ⟨hB.onCurve_hash .message item.1, (hkeys item.2 (List.of_mem_zip hitem).2).1⟩
      obtain ⟨product, hproduct⟩ := exists_pairingProduct hB hpairs
      have hproduct' : B.suite.messageProduct (contents.zip keys) = .ok product := hproduct
      obtain ⟨last, hlast⟩ := hB.exists_pair hs.1 B.member_generatorNeg.1.1
      have hlast' : B.suite.pair s B.suite.generatorNeg = .ok last := hlast
      simp only [bind, Except.bind, hproduct', hlast']
      exact ⟨_, rfl⟩

/-- So does that of weighted proofs. -/
theorem exists_weightedCheck {keys : List (Point Fq)} {proofs : List (Point Fq2)}
    (hkeys : ∀ k ∈ keys, coding₁.Member k) (hproofs : ∀ p ∈ proofs, coding₂.Member p)
    (weights : List Nat) : ∃ answer, B.suite.weightedCheck keys proofs weights = .ok answer := by
  rw [Suite.weightedCheck, mapM_ok fun k _ => B.hashKey_eq k]
  refine exists_pairingCheck hB ?_ ?_ ?_
  · exact List.forall_mem_map.mpr fun k _ => onCurve_possessionPoint hB k
  · exact reading₁.valid_zipWith_multiply hkeys weights
  · exact reading₂.valid_sum (reading₂.valid_zipWith_multiply hproofs weights) reading₂.valid_identity

end

/-! ## Arguments -/

/-- The lengths of the lists are reported. -/
theorem failsOnly_checkDistinct (check : ListCheck) (keys messages : List (Value (Point Fq) (Point Fq2))) :
    FailsOnly Failure.IsReported (Suite.checkDistinct check keys messages) := by
  rw [Suite.checkDistinct]
  split
  · exact .error ⟨_, rfl⟩
  · split
    · exact .error ⟨_, rfl⟩
    · exact .ok ()

/-- So are those of the signatures. -/
theorem failsOnly_checkSignatures (check : ListCheck)
    (keys signatures : List (Value (Point Fq) (Point Fq2))) :
    FailsOnly Failure.IsReported (Suite.checkSignatures check keys signatures) := by
  rw [Suite.checkSignatures]
  split
  · exact .error ⟨_, rfl⟩
  · exact .ok ()

section

variable {B : Backend T} {f : Family} {α : Type}

/-- What comes from outside is refused with one of the library's own failures, or taken as a member. -/
theorem failsOnly_coerce_bind {v : Value (Point Fq) (Point Fq2)} (hv : Arrives f v)
    {next : f.Point (Point Fq) (Point Fq2) → Except Failure α}
    (hnext : ∀ p, MemberPoint f p → FailsOnly Failure.IsReported (next p)) :
    FailsOnly Failure.IsReported (B.suite.coerce f v false >>= next) := by
  refine ((B.failsOnly_coerce false hv.family?_eq).mono fun _ h => h.isReported).bind fun p hp => ?_
  exact hnext p (hv.memberPoint hp)

/-- What is wrong with a member that arrives is reported. -/
theorem failsOnly_coerceAll {members : List (Value (Point Fq) (Point Fq2))}
    (hmembers : ∀ v ∈ members, Arrives f v) :
    FailsOnly Failure.IsReported (B.suite.coerceAll f members) :=
  .mapM fun v hv => (B.failsOnly_coerce false (hmembers v hv).family?_eq).mono fun _ h => h.isReported

/-- What the members are taken as is in the subgroup. -/
theorem memberPoint_of_coerceAll {members : List (Value (Point Fq) (Point Fq2))}
    (hmembers : ∀ v ∈ members, Arrives f v) {points : List (f.Point (Point Fq) (Point Fq2))}
    (hpoints : B.suite.coerceAll f members = .ok points) : ∀ p ∈ points, MemberPoint f p := by
  intro p hp
  obtain ⟨v, hv, hcoerce⟩ := exists_of_mem_mapM hpoints hp
  exact (hmembers v hv).memberPoint hcoerce

/-- So are the members of a list. -/
theorem failsOnly_coerceAll_bind {members : List (Value (Point Fq) (Point Fq2))}
    (hmembers : ∀ v ∈ members, Arrives f v)
    {next : List (f.Point (Point Fq) (Point Fq2)) → Except Failure α}
    (hnext : ∀ points, (∀ p ∈ points, MemberPoint f p) → FailsOnly Failure.IsReported (next points)) :
    FailsOnly Failure.IsReported (B.suite.coerceAll f members >>= next) :=
  (failsOnly_coerceAll hmembers).bind fun points hpoints =>
    hnext points (memberPoint_of_coerceAll hmembers hpoints)

/-- Members can be written. -/
theorem gives_of_valid {p : f.Point (Point Fq) (Point Fq2)} (hp : (B.interpretation f).Valid p) :
    B.suite.Gives f (.ok p) := by
  refine .member (B.valid_interpretation.mp hp) fun form => ?_
  obtain ⟨w, hw, -⟩ := (Suite.alike_of_coincide (B.interpretation f) ⟨hp, hp, rfl⟩).exists_toForm form
  exact ⟨w, hw⟩

/-- A sum of members is a member, and there is none of nothing. -/
theorem gives_totalBy (plan : Plan) {points : List (f.Point (Point Fq) (Point Fq2))}
    (hpoints : ∀ p ∈ points, MemberPoint f p) : B.suite.Gives f (B.suite.totalBy plan f points) := by
  by_cases hne : points = []
  · subst hne
    cases plan with
    | sequential => exact .error ⟨_, rfl⟩
    | sharded w whole => exact .error ⟨_, rfl⟩
  · obtain ⟨t, ht, hvalid, -⟩ := B.suite.totalBy_spec plan (B.interpretation f).toReading hne
      fun p hp => B.valid_interpretation.mpr (hpoints p hp)
    rw [ht]
    exact gives_of_valid hvalid

/-- What follows on a sum of members fails as it does on a member of the subgroup. -/
theorem failsOnly_aggregate_bind (plan : Plan) {members : List (Value (Point Fq) (Point Fq2))}
    (hmembers : ∀ v ∈ members, Arrives f v)
    {next : f.Point (Point Fq) (Point Fq2) → Except Failure α}
    (hnext : ∀ t, MemberPoint f t → FailsOnly Failure.IsReported (next t)) :
    FailsOnly Failure.IsReported (B.suite.aggregateMembersBy plan f members >>= next) := by
  rw [Suite.aggregateMembersBy_eq, bind_assoc]
  exact failsOnly_coerceAll_bind hmembers fun points hpoints =>
    (gives_totalBy plan hpoints).failsOnly_bind hnext

theorem failsOnly_of_exists {x : Except Failure α} (h : ∃ a, x = .ok a) :
    FailsOnly Failure.IsReported x := by
  obtain ⟨a, rfl⟩ := h
  exact .ok a

end

/-! ## Checks -/

section

variable [Monoid T] [DecidableEq T] {B : Backend T} (hB : B.Defined)

include hB

/-- The check of distinct messages fails with reports only. -/
theorem failsOnly_verifyPairsBy (plan : Plan) {keys messages : List (Value (Point Fq) (Point Fq2))}
    {signature : Value (Point Fq) (Point Fq2)} (hkeys : ∀ v ∈ keys, Arrives .key v)
    (hsignature : Arrives .signature signature)
    (hmessages : ∀ m ∈ messages, m.IsByteString) :
    FailsOnly Failure.IsReported (B.suite.verifyPairsBy plan keys signature messages) := by
  rw [Suite.verifyPairsBy_eq]
  refine (failsOnly_checkDistinct _ _ _).bind fun _ _ => ?_
  refine failsOnly_coerce_bind hsignature fun s hs => ?_
  refine failsOnly_coerceAll_bind hkeys fun points hpoints => ?_
  exact failsOnly_of_exists (exists_checkPoints hB hpoints hs hmessages)

/-- So does the batch. -/
theorem failsOnly_batchVerifyLists {keys proofs : List (Value (Point Fq) (Point Fq2))}
    (hkeys : ∀ v ∈ keys, Arrives .key v) (hproofs : ∀ v ∈ proofs, Arrives .proof v)
    (source : RandomSource) :
    FailsOnly Failure.IsReported (B.suite.batchVerifyLists keys proofs source).1 := by
  rw [Suite.batchVerifyLists_fst, Suite.batchMembers]
  split
  · exact .error ⟨_, rfl⟩
  · split
    · exact .error ⟨_, rfl⟩
    -- with equal lengths, the keys are taken, then the proofs
    · rw [bind_assoc]
      refine failsOnly_coerceAll_bind hkeys fun ks hks => ?_
      rw [bind_assoc]
      refine failsOnly_coerceAll_bind hproofs fun ps hps => ?_
      show FailsOnly _ (if _ then _ else _)
      split
      · exact .ok false
      · exact failsOnly_of_exists (exists_weightedCheck hB hks hps _)

/-- A check of arguments that are not trusted has an answer or fails in one of the library's own ways. -/
theorem failsOnly_check {c : Check (Point Fq) (Point Fq2)} (hc : B.suite.Untrusted c)
    (source : RandomSource) : FailsOnly Failure.IsReported (B.suite.check c source).1 := by
  obtain ⟨hwalkable, harrives, hmessage⟩ := hc
  cases c with
  | signature signature key message =>
    obtain ⟨hs, harrives⟩ := List.forall_mem_cons.mp harrives
    refine failsOnly_coerce_bind hs fun s hs => ?_
    refine failsOnly_coerce_bind (harrives _ List.mem_cons_self) fun k hk => ?_
    exact failsOnly_of_exists (exists_verifySignature hB hk hs (hmessage _ List.mem_cons_self))
  | key key signature message =>
    obtain ⟨hk, harrives⟩ := List.forall_mem_cons.mp harrives
    refine failsOnly_coerce_bind hk fun k hk => ?_
    refine failsOnly_coerce_bind (harrives _ List.mem_cons_self) fun s hs => ?_
    obtain ⟨h, hhash, hcurve⟩ := exists_hashMessage hB (hmessage _ List.mem_cons_self)
    rw [hhash]
    exact failsOnly_of_exists (exists_coreVerify hB hk hcurve hs)
  | proof proof key =>
    obtain ⟨hp, harrives⟩ := List.forall_mem_cons.mp harrives
    refine failsOnly_coerce_bind hp fun p hp => ?_
    refine failsOnly_coerce_bind (harrives _ List.mem_cons_self) fun k hk => ?_
    exact failsOnly_of_exists (exists_verifyPossession hB hk hp)
  | possession key proof =>
    obtain ⟨hk, harrives⟩ := List.forall_mem_cons.mp harrives
    refine failsOnly_coerce_bind hk fun k hk => ?_
    refine failsOnly_coerce_bind (harrives _ List.mem_cons_self) fun p hp => ?_
    have hanswer := exists_verifyPossession hB hk hp
    rw [Suite.verifyPossession, Suite.coerce_proof] at hanswer
    exact failsOnly_of_exists hanswer
  | fastAggregate keys message signature =>
    obtain ⟨hs, harrives⟩ := List.forall_mem_cons.mp harrives
    obtain ⟨ks, hks⟩ := List.forall_mem_singleton.mp hwalkable
    show FailsOnly _ (B.suite.fastAggregateVerify keys message signature)
    rw [Suite.fastAggregateVerify_eq, hks]
    show FailsOnly _ (if _ then _ else _)
    split
    · exact .ok false
    · refine failsOnly_coerce_bind hs fun s hs => ?_
      refine failsOnly_aggregate_bind .sequential (Suite.arrives_of_slotsOf harrives hks) fun k hk => ?_
      exact failsOnly_of_exists (exists_verifySignature hB hk hs (hmessage _ List.mem_cons_self))
  | aggregate plan keys signatures message =>
    obtain ⟨hkeys, hsignatures⟩ := List.forall_mem_append.mp harrives
    obtain ⟨⟨ks, hks⟩, hwalkable⟩ := List.forall_mem_cons.mp hwalkable
    obtain ⟨ss, hss⟩ := List.forall_mem_singleton.mp hwalkable
    show FailsOnly _ (B.suite.verifyAggregateBy plan keys signatures message)
    rw [Suite.verifyAggregateBy_eq, Suite.aggregateBy_eq, Suite.aggregateBy_eq, hks, hss]
    refine failsOnly_aggregate_bind plan (Suite.arrives_of_slotsOf hkeys hks) fun k hk => ?_
    refine failsOnly_aggregate_bind plan (Suite.arrives_of_slotsOf hsignatures hss) fun s hs => ?_
    exact failsOnly_of_exists (exists_verifySignature hB hk hs (hmessage _ List.mem_cons_self))
  | failClosed keys messages signature =>
    obtain ⟨hs, harrives⟩ := List.forall_mem_cons.mp harrives
    obtain ⟨⟨ks, hks⟩, hwalkable⟩ := List.forall_mem_cons.mp hwalkable
    obtain ⟨ms, hms⟩ := List.forall_mem_singleton.mp hwalkable
    rw [Suite.messagesOf, B.suite.membersOf_eq hms] at hmessage
    have hpairs := failsOnly_verifyPairsBy hB .sequential
      (Suite.arrives_of_slotsOf harrives hks) hs hmessage
    show FailsOnly _ (B.suite.aggregateVerify keys messages signature)
    rw [Suite.aggregateVerify, hks, hms]
    simp only [bind, Except.bind]
    -- some failures become the answer no, and the others are those of the check of the pairs
    split
    · exact .ok _
    · next failure hfailure =>
      split
      · exact .ok false
      · exact .error (hpairs failure hfailure)
  | distinctAggregated plan keys signature messages =>
    obtain ⟨hs, harrives⟩ := List.forall_mem_cons.mp harrives
    obtain ⟨⟨ks, hks⟩, hwalkable⟩ := List.forall_mem_cons.mp hwalkable
    obtain ⟨ms, hms⟩ := List.forall_mem_singleton.mp hwalkable
    rw [Suite.messagesOf, B.suite.membersOf_eq hms] at hmessage
    show FailsOnly _ (B.suite.verifyDistinctAggregatedBy plan keys signature messages)
    rw [Suite.verifyDistinctAggregatedBy_eq, hks, hms]
    exact failsOnly_verifyPairsBy hB plan (Suite.arrives_of_slotsOf harrives hks) hs hmessage
  | distinct plan keys signatures messages =>
    obtain ⟨hsignatures, hkeys⟩ := List.forall_mem_append.mp harrives
    obtain ⟨⟨ks, hks⟩, hwalkable⟩ := List.forall_mem_cons.mp hwalkable
    obtain ⟨⟨ss, hss⟩, hwalkable⟩ := List.forall_mem_cons.mp hwalkable
    obtain ⟨ms, hms⟩ := List.forall_mem_singleton.mp hwalkable
    rw [Suite.messagesOf, B.suite.membersOf_eq hms] at hmessage
    show FailsOnly _ (B.suite.verifyDistinctBy plan keys signatures messages)
    rw [Suite.verifyDistinctBy_eq, hks, hss, hms]
    refine (failsOnly_checkDistinct _ ks ms).bind fun _ _ => ?_
    refine (failsOnly_checkSignatures _ ks ss).bind fun _ _ => ?_
    refine failsOnly_aggregate_bind plan (Suite.arrives_of_slotsOf hsignatures hss) fun s hs => ?_
    exact failsOnly_verifyPairsBy hB plan (Suite.arrives_of_slotsOf hkeys hks) (.element s hs) hmessage
  | batch keys proofs =>
    obtain ⟨hkeys, hproofs⟩ := List.forall_mem_append.mp harrives
    obtain ⟨⟨ks, hks⟩, hwalkable⟩ := List.forall_mem_cons.mp hwalkable
    obtain ⟨ps, hps⟩ := List.forall_mem_singleton.mp hwalkable
    show FailsOnly _ (B.suite.batchVerify keys proofs source).1
    simp only [Suite.batchVerify, hks, hps]
    exact failsOnly_batchVerifyLists hB (Suite.arrives_of_slotsOf hkeys hks)
      (Suite.arrives_of_slotsOf hproofs hps) source

end

end Backend

/-! ## Sums -/

namespace Backend

section

variable {T : Type} {B : Backend T} {f : Family} {values : Value (Point Fq) (Point Fq2)}
  {members : List (Value (Point Fq) (Point Fq2))}

/-- A list that cannot be taken fails as the first of its slots does that cannot. -/
theorem firstFailure_take {failure : Failure}
    (h : B.suite.coerceAll f members = .error failure) :
    FirstFailure B.suite.take (members.map (Slot.mk f)) failure := by
  obtain ⟨before, v, after, rfl, hbefore, hv⟩ := mapM_eq_error_iff.mp h
  refine ⟨before.map (Slot.mk f), ⟨f, v⟩, after.map (Slot.mk f), by simp, ?_,
    Suite.take_eq_error_iff.mpr hv⟩
  exact List.forall_mem_map.mpr fun u hu => Suite.take_eq_ok_iff.mpr (hbefore u hu)

variable (hmembers : B.suite.items values = .ok members) (harrives : ∀ v ∈ members, Arrives f v)
  (plan : Plan)

include hmembers harrives

/-- The sum of what comes from outside is a member, if it is not refused. -/
theorem gives_aggregateBy : B.suite.Gives f (B.suite.aggregateBy plan f values) := by
  rw [Suite.aggregateBy_eq, hmembers]
  show B.suite.Gives f (B.suite.aggregateMembersBy plan f members)
  rw [Suite.aggregateMembersBy_eq]
  cases hpoints : B.suite.coerceAll f members with
  | error failure => exact .error (failsOnly_coerceAll harrives failure hpoints)
  | ok points => exact gives_totalBy plan (memberPoint_of_coerceAll harrives hpoints)

/-- So is its sum with a member. -/
theorem gives_aggregateWithBy {x : f.Point (Point Fq) (Point Fq2)} (hx : MemberPoint f x) :
    B.suite.Gives f (B.suite.aggregateWithBy plan f x values) := by
  cases hpoints : B.suite.coerceAll f members with
  | error failure =>
    rw [Suite.aggregateWithBy_of_firstFailure hmembers (firstFailure_take hpoints)]
    exact .error (failsOnly_coerceAll harrives failure hpoints)
  | ok points =>
    obtain ⟨t, ht, hvalid, -⟩ := B.suite.aggregateWithBy_spec (B.interpretation f).toReading hmembers
      hpoints (fun p hp => B.valid_interpretation.mpr (memberPoint_of_coerceAll harrives hpoints p hp))
        plan (B.valid_interpretation.mpr hx)
    rw [ht]
    exact gives_of_valid hvalid

end

end Backend

/-! ## Byte strings -/

/-- So does reading a scalar. -/
theorem SecretKey.failsOnly_ofBytes (data : Bytes) :
    FailsOnly Failure.IsReported (SecretKey.ofBytes data) := by
  rw [SecretKey.ofBytes]
  split
  · exact .error ⟨_, rfl⟩
  · rw [SecretKey.ofInt]
    split
    · exact .ok _
    · exact .error ⟨_, rfl⟩

namespace Backend

section

variable {T : Type} {B : Backend T} {v : Value (Point Fq) (Point Fq2)} (hv : v.IsByteString)

include hv

/-- So does asking for a width. -/
theorem failsOnly_bytesOfWidth (sized : Sized) :
    FailsOnly Failure.IsReported (B.suite.bytesOfWidth sized v) := by
  obtain ⟨data, hdata⟩ := hv
  rw [Suite.bytesOfWidth_of_content? _ hdata]
  split
  · exact .ok data
  · exact .error ⟨_, rfl⟩

/-- The decoder of a group refuses a byte string for its width, or because it gives no point. -/
theorem failsOnly_pointOf {F : Type} [Field F] [DecidableEq F] (C : Coding F) (form : Form)
    (allowIdentity : Bool) :
    FailsOnly Failure.IsReported (B.suite.pointOf C.group C.side form v allowIdentity) := by
  obtain ⟨data, hdata⟩ := hv
  rw [Suite.pointOf, Value.length_of_content? hdata, Suite.encodingOf_of_content? _ hdata]
  show FailsOnly _ (if _ then _ else _)
  split
  · exact .error ⟨_, rfl⟩
  · next hlength =>
    exact (C.failsOnly_decode (not_not.mp hlength) allowIdentity).mono fun _ h => h.isReported

/-- So does the decoder of a family, which takes both widths. -/
theorem failsOnly_elementOf (f : Family) (allowIdentity : Bool) :
    FailsOnly Failure.IsReported (B.suite.elementOf f v allowIdentity) := by
  obtain ⟨data, hdata⟩ := hv
  rw [Suite.elementOf, Suite.byteCount_of_content? _ hdata, Suite.bytesOf_of_content? _ hdata]
  show FailsOnly _ (if _ then _ else _)
  split
  · next hlength =>
    rcases hlength with hlength | hlength
    · exact (B.failsOnly_decodeElement allowIdentity hlength).mono fun _ h => h.isReported
    · exact (B.failsOnly_decodeElement allowIdentity hlength).mono fun _ h => h.isReported
  · exact .error ⟨_, rfl⟩

theorem failsOnly_secretKeyOf : FailsOnly Failure.IsReported (B.suite.secretKeyOf v) :=
  (failsOnly_bytesOfWidth hv .secretKey).bind fun data _ => SecretKey.failsOnly_ofBytes data

theorem failsOnly_keypairOf : FailsOnly Failure.IsReported (B.suite.keypairOf v) := by
  obtain ⟨data, hdata⟩ := hv
  rw [Suite.keypairOf_of_content? _ hdata]
  exact fun failure h => (B.keypairRefusal h).isReported

end

end Backend

/-! ## The suite that runs -/

/-- The pairing has a value for all points of the two curves. -/
theorem Pairing.exists_pair {Q : Point Fq2} {P : Point Fq} (hQ : Q.onCurve b₂ = true)
    (hP : P.onCurve b₁ = true) : ∃ t, Pairing.pair Q P = .ok t := by
  have hQ' : ¬ Q.onCurve b₂ = false := ne_false_of_eq_true hQ
  have hP' : ¬ P.onCurve b₁ = false := ne_false_of_eq_true hP
  rw [Pairing.pair, if_neg hQ', if_neg hP']
  split
  · exact ⟨_, rfl⟩
  · exact ⟨_, rfl⟩

/-- The suite hashes onto its curve and pairs what is on both. -/
theorem defined_bls12381 :
    Backend.Defined ⟨ToCurve.hash, Pairing.pair, Pairing.finalExponentiation⟩ where
  onCurve_hash tag data := by
    -- or the two sides are compared by being computed
    dsimp only
    exact ToCurve.onCurve_hash tag data
  exists_pair hh hk := by
    dsimp only
    exact Pairing.exists_pair hh hk

/-- Bytes that are not trusted cause none but the library's own failures.  A check of wire values and
    members of the right families, in lists of any lengths, and of messages that are byte strings has an
    answer or fails in one of the library's own ways.  A sum of such values, or of them and a member, is a
    member, which can be written in both forms, or fails in one of these ways.  So does every decoder, for
    every byte string. -/
theorem untrusted_reported :
    (∀ c, bls12381.Untrusted c → ∀ source,
      FailsOnly Failure.IsReported (bls12381.check c source).1) ∧
    (∀ (plan : Plan) (f : Family) values members, bls12381.items values = .ok members →
      (∀ v ∈ members, Arrives f v) →
        bls12381.Gives f (bls12381.aggregateBy plan f values) ∧
        ∀ x, MemberPoint f x → bls12381.Gives f (bls12381.aggregateWithBy plan f x values)) ∧
    ∀ v : Value (Point Fq) (Point Fq2), v.IsByteString →
      (∀ form allowIdentity,
        FailsOnly Failure.IsReported (bls12381.pointOf bls12381.group₁ .g1 form v allowIdentity) ∧
        FailsOnly Failure.IsReported (bls12381.pointOf bls12381.group₂ .g2 form v allowIdentity)) ∧
      (∀ f allowIdentity, FailsOnly Failure.IsReported (bls12381.elementOf f v allowIdentity)) ∧
      FailsOnly Failure.IsReported (bls12381.secretKeyOf v) ∧
      FailsOnly Failure.IsReported (bls12381.keypairOf v) := by
  rw [bls12381_eq_suite]
  refine ⟨?_, ?_, ?_⟩
  · intro c hc source
    exact Backend.failsOnly_check defined_bls12381 hc source
  · intro plan f values members hmembers harrives
    exact ⟨Backend.gives_aggregateBy hmembers harrives plan,
      fun x hx => Backend.gives_aggregateWithBy hmembers harrives plan hx⟩
  · intro v hv
    exact ⟨fun form allowIdentity => ⟨Backend.failsOnly_pointOf hv coding₁ form allowIdentity,
        Backend.failsOnly_pointOf hv coding₂ form allowIdentity⟩,
      Backend.failsOnly_elementOf hv, Backend.failsOnly_secretKeyOf hv,
      Backend.failsOnly_keypairOf hv⟩

/-- The list of one wire value of zeros, which is no encoding of anything. -/
def zeroWires (f : Family) (form : Form) : Value (Point Fq) (Point Fq2) :=
  .list [.wire (Wire.zero f form)]

/-- Zeros in the place of a key and of two signatures, of which only one has a message. -/
def unequalCheck : Check (Point Fq) (Point Fq2) :=
  .distinct .sequential (zeroWires .key .affine)
    (.list [.wire (Wire.zero .signature .compressed), .wire (Wire.zero .signature .affine)])
    (.list [.ofBytes [97]])

/-- Its failure is one of the library's own, and so is that of a sum of zeros and that of zeros as a
    keypair. -/
theorem untrusted_reported_zeros :
    bls12381.Untrusted unequalCheck ∧
    FailsOnly Failure.IsReported (bls12381.check unequalCheck ⟨[], []⟩).1 ∧
    (∀ v ∈ [.wire (Wire.zero .proof .compressed)], Arrives .proof v) ∧
    bls12381.Gives .proof (bls12381.aggregateBy .sequential .proof (zeroWires .proof .compressed)) ∧
    MemberPoint .proof generator₂ ∧
    bls12381.Gives .proof
      (bls12381.aggregateWithBy .sequential .proof generator₂ (zeroWires .proof .compressed)) ∧
    (Value.ofBytes (Bytes.zeros 128) : Value (Point Fq) (Point Fq2)).IsByteString ∧
    FailsOnly Failure.IsReported (bls12381.keypairOf (.ofBytes (Bytes.zeros 128))) := by
  -- two signatures for one key: everything arrives, though not in equal numbers
  have huntrusted : bls12381.Untrusted unequalCheck := by
    refine ⟨?_, ?_, ?_⟩
    · intro v hv
      simp only [unequalCheck, Check.lists, zeroWires, List.mem_cons, List.not_mem_nil, or_false] at hv
      rcases hv with rfl | rfl | rfl
      · exact ⟨_, rfl⟩
      · exact ⟨_, rfl⟩
      · exact ⟨_, rfl⟩
    · intro slot hslot
      have hslots : bls12381.slots unequalCheck =
          [⟨.signature, .wire (Wire.zero .signature .compressed)⟩,
            ⟨.signature, .wire (Wire.zero .signature .affine)⟩,
            ⟨.key, .wire (Wire.zero .key .affine)⟩] := rfl
      simp only [hslots, List.mem_cons, List.not_mem_nil, or_false] at hslot
      rcases hslot with rfl | rfl | rfl
      · exact .wire _ rfl
      · exact .wire _ rfl
      · exact .wire _ rfl
    · exact List.forall_mem_singleton.mpr ⟨[97], rfl⟩
  have harrives : ∀ v ∈ [.wire (Wire.zero .proof .compressed)], Arrives .proof v :=
    List.forall_mem_singleton.mpr (.wire _ rfl)
  have hbytes : (Value.ofBytes (Bytes.zeros 128) : Value (Point Fq) (Point Fq2)).IsByteString :=
    ⟨_, rfl⟩
  obtain ⟨hchecks, hsums, hdecoders⟩ := untrusted_reported
  obtain ⟨hsum, honto⟩ :=
    hsums .sequential .proof (zeroWires .proof .compressed) _ rfl harrives
  exact ⟨huntrusted, hchecks _ huntrusted _, harrives, hsum, member_generator₂,
    honto _ member_generator₂, hbytes, (hdecoders _ hbytes).2.2.2⟩

end AggSig
