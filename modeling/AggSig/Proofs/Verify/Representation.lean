/-
  Checks and sums do not depend on how their elements are represented.

  Once an argument is taken as a triple, a recast of it is taken as a triple that stands for the same
  element, and so whatever is done next has to answer alike on such triples.  There is one rule for each
  way in which arguments are taken (`items_bind_eq`, `coerce_bind_eq`, `coerceAll_bind_eq`,
  `totalBy_bind_eq`), and a check is gone through by them step by step.

  What is left at the end are tests for the identity, encodings of keys that are hashed, and pairings.  The
  first two depend on what a triple stands for only.  That the pairing does so as well is what makes a
  backend *blind* (`Backend.Blind`); the one that runs is (`blind_running`).
-/
import AggSig.Proofs.Element.Representation
import AggSig.Proofs.Verify.Check
import AggSig.Proofs.Verify.Possession

namespace AggSig

/-! ## Triples that coincide, in lists -/

namespace GroupLaw.Reading

variable {P : Type} {G : GroupLaw P} {A : Type} [AddCommGroup A] {R : Reading G A}

theorem Coincide.isIdentity_eq {p r : P} (h : R.Coincide p r) : G.isIdentity p = G.isIdentity r := by
  rw [Bool.eq_iff_iff, R.isIdentity_iff h.left, R.isIdentity_iff h.right, h.read_eq]

/-- Multiples of points that stand for one element do so as well. -/
theorem Coincide.multiply {p r : P} (h : R.Coincide p r) (n : Nat) :
    R.Coincide (G.multiply p n) (G.multiply r n) :=
  ⟨R.valid_multiply h.left n, R.valid_multiply h.right n, by
    rw [R.read_multiply h.left, R.read_multiply h.right, h.read_eq]⟩

variable {ps rs : List P} (h : List.Forall₂ R.Coincide ps rs)

include h

/-- The identity is among both lists or among neither. -/
theorem any_isIdentity_eq : ps.any G.isIdentity = rs.any G.isIdentity := by
  induction h with
  | nil => rfl
  | cons hp _ ih => rw [List.any_cons, List.any_cons, hp.isIdentity_eq, ih]

theorem map_read_eq : ps.map R.read = rs.map R.read := by
  induction h with
  | nil => rfl
  | cons hp _ ih => rw [List.map_cons, List.map_cons, hp.read_eq, ih]

/-- All members of both are valid. -/
theorem valid_of_coincide : (∀ p ∈ ps, R.Valid p) ∧ ∀ r ∈ rs, R.Valid r := by
  induction h with
  | nil => exact ⟨fun p hp => (nomatch hp), fun r hr => (nomatch hr)⟩
  | cons hp _ ih =>
    exact ⟨List.forall_mem_cons.mpr ⟨hp.left, ih.1⟩, List.forall_mem_cons.mpr ⟨hp.right, ih.2⟩⟩

/-- Weighted in the same way, they still stand for the same elements. -/
theorem zipWith_multiply (ns : List Nat) :
    List.Forall₂ R.Coincide (List.zipWith G.multiply ps ns) (List.zipWith G.multiply rs ns) := by
  induction h generalizing ns with
  | nil => exact .nil
  | cons hp _ ih =>
    cases ns with
    | nil => exact .nil
    | cons n ns => exact .cons (hp.multiply n) (ih ns)

/-- Their sums stand for one element. -/
theorem sum_coincide {p r : P} (hstart : R.Coincide p r) :
    R.Coincide (G.sum ps p) (G.sum rs r) := by
  obtain ⟨hps, hrs⟩ := valid_of_coincide h
  obtain ⟨hvalid, hread⟩ := R.sum_spec hps hstart.left
  obtain ⟨hvalid', hread'⟩ := R.sum_spec hrs hstart.right
  exact ⟨hvalid, hvalid', by rw [hread, hread', hstart.read_eq, map_read_eq h]⟩

end GroupLaw.Reading

namespace Backend

variable {T : Type}

/-! ## Arguments -/

section

variable {B : Backend T} {f : Family} {β : Type}

/-- Steps that agree on the members of recast lists agree on the lists. -/
theorem items_bind_eq {v v' : Value (Point Fq) (Point Fq2)} (h : B.suite.RecastList f v v')
    {next next' : List (Value (Point Fq) (Point Fq2)) → Except Failure β}
    (hnext : ∀ ms ms', List.Forall₂ (B.suite.Recast f) ms ms' → next ms = next' ms') :
    B.suite.items v >>= next = B.suite.items v' >>= next' := by
  obtain ⟨ms, ms', hms, hms', hrecast⟩ := h
  rw [hms, hms']
  exact hnext ms ms' hrecast

/-- Steps that agree on points for one element agree on recast values. -/
theorem coerce_bind_eq {v v' : Value (Point Fq) (Point Fq2)} (h : B.suite.Recast f v v')
    {next next' : f.Point (Point Fq) (Point Fq2) → Except Failure β}
    (hnext : ∀ p p', (B.interpretation f).Coincide p p' → next p = next' p') :
    B.suite.coerce f v false >>= next = B.suite.coerce f v' false >>= next' := by
  obtain ⟨p, p', hp, hp', hcoincide⟩ := coerce_of_recast h
  rw [hp, hp']
  exact hnext p p' hcoincide

/-- Steps that agree on points for the same elements agree on recast members. -/
theorem coerceAll_bind_eq {ms ms' : List (Value (Point Fq) (Point Fq2))}
    (h : List.Forall₂ (B.suite.Recast f) ms ms')
    {next next' : List (f.Point (Point Fq) (Point Fq2)) → Except Failure β}
    (hnext : ∀ ps ps', List.Forall₂ (B.interpretation f).Coincide ps ps' → next ps = next' ps') :
    B.suite.coerceAll f ms >>= next = B.suite.coerceAll f ms' >>= next' := by
  obtain ⟨ps, ps', hps, hps', hcoincide⟩ := coerceAll_of_recast h
  rw [hps, hps']
  exact hnext ps ps' hcoincide

/-- Sums of triples that coincide coincide, and there is none for no triples. -/
theorem totalBy_bind_eq (plan : Plan) {ps ps' : List (f.Point (Point Fq) (Point Fq2))}
    (h : List.Forall₂ (B.interpretation f).Coincide ps ps')
    {next next' : f.Point (Point Fq) (Point Fq2) → Except Failure β}
    (hnext : ∀ t t', (B.interpretation f).Coincide t t' → next t = next' t') :
    B.suite.totalBy plan f ps >>= next = B.suite.totalBy plan f ps' >>= next' := by
  by_cases hne : ps = []
  · -- no points on either side, and the same refusal
    subst hne
    cases h
    cases plan <;> rfl
  · have hne' : ps' ≠ [] := by
      rintro rfl
      cases h
      exact hne rfl
    obtain ⟨hvalid, hvalid'⟩ := GroupLaw.Reading.valid_of_coincide h
    obtain ⟨t, ht, htvalid, htread⟩ :=
      B.suite.totalBy_spec plan (B.interpretation f).toReading hne hvalid
    obtain ⟨t', ht', htvalid', htread'⟩ :=
      B.suite.totalBy_spec plan (B.interpretation f).toReading hne' hvalid'
    rw [ht, ht']
    refine hnext t t' ⟨htvalid, htvalid', ?_⟩
    rw [htread, htread', GroupLaw.Reading.map_read_eq h]

/-- Steps that agree on points for one element agree on the sums of recast members. -/
theorem aggregateMembersBy_bind_eq (plan : Plan) {ms ms' : List (Value (Point Fq) (Point Fq2))}
    (h : List.Forall₂ (B.suite.Recast f) ms ms')
    {next next' : f.Point (Point Fq) (Point Fq2) → Except Failure β}
    (hnext : ∀ t t', (B.interpretation f).Coincide t t' → next t = next' t') :
    B.suite.aggregateMembersBy plan f ms >>= next =
      B.suite.aggregateMembersBy plan f ms' >>= next' := by
  rw [Suite.aggregateMembersBy_eq, Suite.aggregateMembersBy_eq, bind_assoc, bind_assoc]
  exact coerceAll_bind_eq h fun ps ps' hps => totalBy_bind_eq plan hps hnext

end

/-! ## Pairings -/

/-- A backend whose pairing tells no triples apart that stand for one element. -/
structure Blind (B : Backend T) : Prop where
  pair_left {h h' : Point Fq2} (k : Point Fq) :
    reading₂.Coincide h h' → B.pair h k = B.pair h' k
  pair_right (h : Point Fq2) {k k' : Point Fq} :
    reading₁.Coincide k k' → B.pair h k = B.pair h k'

end Backend

/-- Lists of pairs with the same pairings have one product. -/
theorem Suite.pairingProduct_congr {P₁ P₂ T : Type} [One T] [Mul T] (S : Suite P₁ P₂ T)
    {pairs pairs' : List (P₂ × P₁)}
    (h : List.Forall₂ (fun a b => S.pair a.1 a.2 = S.pair b.1 b.2) pairs pairs') :
    S.pairingProduct pairs = S.pairingProduct pairs' := by
  rw [pairingProduct, pairingProduct]
  -- on the pairs; the product that they follow on is the same on both sides
  generalize (1 : T) = start
  induction h generalizing start with
  | nil => rfl
  | @cons a b pairs pairs' hpair _ ih =>
    rw [List.foldlM_cons, List.foldlM_cons]
    simp only [hpair, ih]

namespace Backend

variable {T : Type} {B : Backend T}

/-- Keys that stand for one element are hashed to one point. -/
theorem hashKey_congr {k k' : Point Fq} (hk : reading₁.Coincide k k') :
    B.suite.hashKey k = B.suite.hashKey k' := by
  obtain ⟨w, -, -, hhash, hhash'⟩ := B.exists_hashKey hk
  rw [hhash, hhash']

theorem hashKeys_congr {ks ks' : List (Point Fq)} (hks : List.Forall₂ reading₁.Coincide ks ks') :
    ks.mapM B.suite.hashKey = ks'.mapM B.suite.hashKey := by
  induction hks with
  | nil => rfl
  | cons hk _ ih => rw [List.mapM_cons, List.mapM_cons, hashKey_congr hk, ih]

namespace Blind

variable (hB : B.Blind)

include hB

/-- Hashed points, paired with keys in one way or another. -/
theorem zip_pair {ks ks' : List (Point Fq)} (hks : List.Forall₂ reading₁.Coincide ks ks')
    (hashes : List (Point Fq2)) :
    List.Forall₂ (fun a b => B.suite.pair a.1 a.2 = B.suite.pair b.1 b.2) (hashes.zip ks)
      (hashes.zip ks') := by
  induction hks generalizing hashes with
  | nil =>
    rw [List.zip_nil_right]
    exact .nil
  | cons hk _ ih =>
    cases hashes with
    | nil => exact .nil
    | cons h hashes => exact .cons (hB.pair_right h hk) (ih hashes)

variable [One T] [Mul T] [DecidableEq T] {k k' : Point Fq} {s s' : Point Fq2}

/-- A product of hashed points with keys, and the signature with the generator. -/
theorem pairingCheck_congr {ks ks' : List (Point Fq)}
    (hks : List.Forall₂ reading₁.Coincide ks ks')
    (hs : B.suite.pair s B.suite.generatorNeg = B.suite.pair s' B.suite.generatorNeg)
    (hashes : List (Point Fq2)) :
    B.suite.pairingCheck (hashes.zip ks ++ [(s, B.suite.generatorNeg)]) =
      B.suite.pairingCheck (hashes.zip ks' ++ [(s', B.suite.generatorNeg)]) := by
  rw [Suite.pairingCheck_append_single, Suite.pairingCheck_append_single, hs,
    B.suite.pairingProduct_congr (hB.zip_pair hks hashes)]

/-- The innermost check does not look at the triples. -/
theorem coreVerify_congr (hk : reading₁.Coincide k k')
    (hs : B.suite.pair s B.suite.generatorNeg = B.suite.pair s' B.suite.generatorNeg)
    (h : Point Fq2) : B.suite.coreVerify k h s = B.suite.coreVerify k' h s' := by
  have hidentity : B.suite.group₁.isIdentity k = B.suite.group₁.isIdentity k' := hk.isIdentity_eq
  rw [Suite.coreVerify, Suite.coreVerify, hidentity]
  split
  · rfl
  · exact hB.pairingCheck_congr (.cons hk .nil) hs [h]

/-- Nor does that of a signature. -/
theorem verifySignature_congr (hk : reading₁.Coincide k k')
    (hs : B.suite.pair s B.suite.generatorNeg = B.suite.pair s' B.suite.generatorNeg)
    (m : Value (Point Fq) (Point Fq2)) :
    B.suite.verifySignature k (.element (.signature s)) m =
      B.suite.verifySignature k' (.element (.signature s')) m := by
  rw [Suite.verifySignature_signature, Suite.verifySignature_signature]
  congr 1
  funext h
  exact hB.coreVerify_congr hk hs h

/-- Nor does that of a proof of possession. -/
theorem verifyPossession_congr (hk : reading₁.Coincide k k') (hs : reading₂.Coincide s s') :
    B.suite.verifyPossession k (.element (.proof s)) =
      B.suite.verifyPossession k' (.element (.proof s')) := by
  have hidentity : B.suite.group₁.isIdentity k = B.suite.group₁.isIdentity k' := hk.isIdentity_eq
  rw [Suite.verifyPossession, Suite.verifyPossession, Suite.coerce_proof, Suite.coerce_proof,
    hashKey_congr hk]
  simp only [bind, Except.bind, hidentity]
  split
  · rfl
  · split
    · rfl
    · exact hB.coreVerify_congr hk (hB.pair_left _ hs) _

/-- Nor does that of distinct messages. -/
theorem checkPoints_congr {ks ks' : List (Point Fq)}
    (hks : List.Forall₂ reading₁.Coincide ks ks') (hs : reading₂.Coincide s s')
    (messages : List (Value (Point Fq) (Point Fq2))) :
    B.suite.checkPoints ks messages s = B.suite.checkPoints ks' messages s' := by
  have hidentity : ks.any B.suite.group₁.isIdentity = ks'.any B.suite.group₁.isIdentity :=
    GroupLaw.Reading.any_isIdentity_eq hks
  have hlast : B.suite.pair s B.suite.generatorNeg = B.suite.pair s' B.suite.generatorNeg :=
    hB.pair_left _ hs
  -- the keys are paired with what the messages are hashed to, whatever the messages are
  have hproduct : ∀ contents : List Bytes,
      B.suite.messageProduct (contents.zip ks) = B.suite.messageProduct (contents.zip ks') := by
    intro contents
    have hzip := hB.zip_pair hks (contents.map (B.suite.hash .message))
    rw [List.zip_map_left, List.zip_map_left] at hzip
    exact B.suite.pairingProduct_congr hzip
  simp only [Suite.checkPoints, hidentity, hlast, hproduct]

/-- Nor does that of weighted proofs. -/
theorem weightedCheck_congr {ks ks' : List (Point Fq)} {ps ps' : List (Point Fq2)}
    (hks : List.Forall₂ reading₁.Coincide ks ks') (hps : List.Forall₂ reading₂.Coincide ps ps')
    (weights : List Nat) :
    B.suite.weightedCheck ks ps weights = B.suite.weightedCheck ks' ps' weights := by
  have hsum := GroupLaw.Reading.sum_coincide (GroupLaw.Reading.zipWith_multiply hps weights)
    ⟨reading₂.valid_identity, reading₂.valid_identity, rfl⟩
  rw [Suite.weightedCheck, Suite.weightedCheck, hashKeys_congr hks]
  congr 1
  funext hashes
  exact hB.pairingCheck_congr (GroupLaw.Reading.zipWith_multiply hks weights) (hB.pair_left _ hsum)
    hashes

end Blind

end Backend

/-! ## Checks -/

/-- The second check is the first one with its keys, signatures and proofs recast. -/
inductive Suite.RecastCheck {T : Type} (S : Suite (Point Fq) (Point Fq2) T) :
    Check (Point Fq) (Point Fq2) → Check (Point Fq) (Point Fq2) → Prop
  | signature {s s' k k' m} : S.Recast .signature s s' → S.Recast .key k k' →
      RecastCheck S (.signature s k m) (.signature s' k' m)
  | key {k k' s s' m} : S.Recast .key k k' → S.Recast .signature s s' →
      RecastCheck S (.key k s m) (.key k' s' m)
  | proof {p p' k k'} : S.Recast .proof p p' → S.Recast .key k k' →
      RecastCheck S (.proof p k) (.proof p' k')
  | possession {k k' p p'} : S.Recast .key k k' → S.Recast .proof p p' →
      RecastCheck S (.possession k p) (.possession k' p')
  | fastAggregate {ks ks' m s s'} : S.RecastList .key ks ks' → S.Recast .signature s s' →
      RecastCheck S (.fastAggregate ks m s) (.fastAggregate ks' m s')
  | aggregate {plan ks ks' ss ss' m} : S.RecastList .key ks ks' → S.RecastList .signature ss ss' →
      RecastCheck S (.aggregate plan ks ss m) (.aggregate plan ks' ss' m)
  | failClosed {ks ks' ms s s'} : S.RecastList .key ks ks' → S.Recast .signature s s' →
      RecastCheck S (.failClosed ks ms s) (.failClosed ks' ms s')
  | distinctAggregated {plan ks ks' s s' ms} : S.RecastList .key ks ks' →
      S.Recast .signature s s' →
      RecastCheck S (.distinctAggregated plan ks s ms) (.distinctAggregated plan ks' s' ms)
  | distinct {plan ks ks' ss ss' ms} : S.RecastList .key ks ks' → S.RecastList .signature ss ss' →
      RecastCheck S (.distinct plan ks ss ms) (.distinct plan ks' ss' ms)
  | batch {ks ks' ps ps'} : S.RecastList .key ks ks' → S.RecastList .proof ps ps' →
      RecastCheck S (.batch ks ps) (.batch ks' ps')

namespace Backend.Blind

variable {T : Type} [Monoid T] [DecidableEq T] {B : Backend T} (hB : B.Blind)
variable {k k' : Point Fq} {ks ks' : List (Value (Point Fq) (Point Fq2))}

include hB

/-- A signature may be recast. -/
theorem verifySignature_recast {v v' : Value (Point Fq) (Point Fq2)}
    (hk : reading₁.Coincide k k') (hv : B.suite.Recast .signature v v')
    (m : Value (Point Fq) (Point Fq2)) :
    B.suite.verifySignature k v m = B.suite.verifySignature k' v' m := by
  refine coerce_bind_eq hv fun s s' hs => ?_
  congr 1
  funext h
  exact hB.coreVerify_congr hk (hB.pair_left _ hs) h

/-- So may a proof of possession. -/
theorem verifyPossession_recast {v v' : Value (Point Fq) (Point Fq2)}
    (hk : reading₁.Coincide k k') (hv : B.suite.Recast .proof v v') :
    B.suite.verifyPossession k v = B.suite.verifyPossession k' v' := by
  refine coerce_bind_eq hv fun p p' hp => ?_
  exact hB.verifyPossession_congr hk hp

/-- For signatures that are taken as triples of one element. -/
theorem verifyPairsBy_congr (plan : Plan) (hks : List.Forall₂ (B.suite.Recast .key) ks ks')
    {v v' : Value (Point Fq) (Point Fq2)} {s s' : Point Fq2}
    (hv : B.suite.coerce .signature v false = .ok s)
    (hv' : B.suite.coerce .signature v' false = .ok s') (hs : reading₂.Coincide s s')
    (messages : List (Value (Point Fq) (Point Fq2))) :
    B.suite.verifyPairsBy plan ks v messages = B.suite.verifyPairsBy plan ks' v' messages := by
  rw [Suite.verifyPairsBy_eq, Suite.verifyPairsBy_eq, hv, hv',
    Suite.checkDistinct_congr _ hks.length_eq]
  congr 1
  funext _
  exact coerceAll_bind_eq hks fun points points' hpoints =>
    hB.checkPoints_congr hpoints hs messages

/-- So may the keys and the signature of distinct messages. -/
theorem verifyPairsBy_recast (plan : Plan) (hks : List.Forall₂ (B.suite.Recast .key) ks ks')
    {v v' : Value (Point Fq) (Point Fq2)} (hv : B.suite.Recast .signature v v')
    (messages : List (Value (Point Fq) (Point Fq2))) :
    B.suite.verifyPairsBy plan ks v messages = B.suite.verifyPairsBy plan ks' v' messages := by
  obtain ⟨s, s', hs, hs', hcoincide⟩ := coerce_of_recast hv
  exact hB.verifyPairsBy_congr plan hks hs hs' hcoincide messages

/-- So may the keys and proofs of a batch. -/
theorem batchVerifyLists_recast (hks : List.Forall₂ (B.suite.Recast .key) ks ks')
    {ps ps' : List (Value (Point Fq) (Point Fq2))}
    (hps : List.Forall₂ (B.suite.Recast .proof) ps ps') :
    B.suite.batchVerifyLists ks ps = B.suite.batchVerifyLists ks' ps' := by
  obtain ⟨points, points', hpoints, hpoints', hcoincide⟩ := coerceAll_of_recast hks
  obtain ⟨proofs, proofs', hproofs, hproofs', hcoincide'⟩ := coerceAll_of_recast hps
  have hidentity : points.any B.suite.group₁.isIdentity = points'.any B.suite.group₁.isIdentity :=
    GroupLaw.Reading.any_isIdentity_eq hcoincide
  have hempty : ks.isEmpty = ks'.isEmpty := isEmpty_eq_of_length_eq hks.length_eq
  have hmembers : ∀ ks ps points proofs, B.suite.coerceAll .key ks = .ok points →
      B.suite.coerceAll .proof ps = .ok proofs → B.suite.batchMembers ks ps =
        if ks.length ≠ ps.length then .error (.lengthsDiffer .batch ks.length .proofs ps.length)
        else if ks.isEmpty then .error (.emptyLists .batch) else .ok (points, proofs) := by
    intro ks ps points proofs hpoints hproofs
    rw [Suite.batchMembers, hpoints, hproofs]
    rfl
  have hchecks : ∀ weights, B.suite.weightedCheck points proofs weights =
      B.suite.weightedCheck points' proofs' weights := hB.weightedCheck_congr hcoincide hcoincide'
  funext source
  -- as many weights are drawn on either side, after the same tests
  rw [Suite.batchVerifyLists, Suite.batchVerifyLists, hmembers ks ps _ _ hpoints hproofs,
    hmembers ks' ps' _ _ hpoints' hproofs', hks.length_eq, hps.length_eq, hempty]
  by_cases hlengths : ks'.length ≠ ps'.length
  · rw [if_pos hlengths, if_pos hlengths]
  · rw [if_neg hlengths, if_neg hlengths]
    by_cases hnone : ks'.isEmpty = true
    · rw [if_pos hnone, if_pos hnone]
    · rw [if_neg hnone, if_neg hnone]
      simp only [hidentity, hcoincide.length_eq, hchecks]

/-- A check and its recast give the same answer, with the same weights. -/
theorem check_eq {c c' : Check (Point Fq) (Point Fq2)} (h : B.suite.RecastCheck c c') :
    B.suite.check c = B.suite.check c' := by
  funext source
  -- one case for each check: its arguments are taken in turn, as points that stand for the same elements
  cases h with
  | signature hs hk =>
    refine congrArg (·, source) (coerce_bind_eq hs fun s s' hs => coerce_bind_eq hk fun k k' hk => ?_)
    exact hB.verifySignature_congr hk (hB.pair_left _ hs) _
  | key hk hs =>
    exact congrArg (·, source) (coerce_bind_eq hk fun k k' hk => hB.verifySignature_recast hk hs _)
  | proof hp hk =>
    refine congrArg (·, source) (coerce_bind_eq hp fun p p' hp => coerce_bind_eq hk fun k k' hk => ?_)
    exact hB.verifyPossession_congr hk hp
  | possession hk hp =>
    exact congrArg (·, source) (coerce_bind_eq hk fun k k' hk => hB.verifyPossession_recast hk hp)
  | fastAggregate hks hs =>
    refine congrArg (·, source) (items_bind_eq hks fun ks ks' hks => ?_)
    rw [isEmpty_eq_of_length_eq hks.length_eq]
    split
    · rfl
    · refine coerce_bind_eq hs fun s s' hs => ?_
      exact aggregateMembersBy_bind_eq .sequential hks fun k k' hk =>
        hB.verifySignature_congr hk (hB.pair_left _ hs) _
  | @aggregate plan ks ks' ss ss' _ hks hss =>
    refine congrArg (·, source) ?_
    rw [Suite.verifyAggregateBy_eq, Suite.verifyAggregateBy_eq]
    simp only [Suite.aggregateBy_eq, bind_assoc]
    refine items_bind_eq hks fun _ _ hks => aggregateMembersBy_bind_eq plan hks fun k k' hk => ?_
    refine items_bind_eq hss fun _ _ hss => aggregateMembersBy_bind_eq plan hss fun s s' hs => ?_
    exact hB.verifySignature_congr hk (hB.pair_left _ hs) _
  | failClosed hks hs =>
    refine congrArg (·, source) (items_bind_eq hks fun ks ks' hks => ?_)
    congr 1
    funext ms
    have hpairs : B.suite.verifyPairs ks _ ms = B.suite.verifyPairs ks' _ ms :=
      hB.verifyPairsBy_recast .sequential hks hs ms
    rw [hpairs]
  | distinctAggregated hks hs =>
    refine congrArg (·, source) ?_
    rw [Suite.verifyDistinctAggregatedBy_eq, Suite.verifyDistinctAggregatedBy_eq]
    refine items_bind_eq hks fun ks ks' hks => ?_
    congr 1
    funext ms
    exact hB.verifyPairsBy_recast _ hks hs ms
  | @distinct plan ks ks' ss ss' _ hks hss =>
    refine congrArg (·, source) ?_
    rw [Suite.verifyDistinctBy_eq, Suite.verifyDistinctBy_eq]
    refine items_bind_eq hks fun ks ks' hks => items_bind_eq hss fun ss ss' hss => ?_
    congr 1
    funext ms
    rw [Suite.checkDistinct_congr _ hks.length_eq, Suite.checkSignatures_congr _ hks.length_eq hss.length_eq]
    congr 1
    funext _
    congr 1
    funext _
    refine aggregateMembersBy_bind_eq plan hss fun s s' hs => ?_
    exact hB.verifyPairsBy_congr plan hks (B.suite.coerce_signature s false)
      (B.suite.coerce_signature s' false) hs ms
  | batch hks hps =>
    obtain ⟨ks, ks', hk, hk', hks⟩ := hks
    obtain ⟨ps, ps', hp, hp', hps⟩ := hps
    simp only [Suite.check, Suite.batchVerify, hk, hk', hp, hp']
    rw [hB.batchVerifyLists_recast hks hps]

end Backend.Blind

/-! ## Sums -/

section

variable {T : Type} {B : Backend T} {f : Family} {v v' : Value (Point Fq) (Point Fq2)}
  (hv : B.suite.RecastList f v v') (plan : Plan)

include hv

/-- Lists that are recast of each other have aggregates that are alike. -/
theorem Backend.exists_aggregateBy_recast (hne : B.suite.items v ≠ .ok []) :
    ∃ t t', B.suite.aggregateBy plan f v = .ok t ∧ B.suite.aggregateBy plan f v' = .ok t' ∧
      B.suite.Alike (.of f t) (.of f t') := by
  obtain ⟨members, members', hmembers, hmembers', hrecast⟩ := hv
  obtain ⟨points, points', hpoints, hpoints', hcoincide⟩ := coerceAll_of_recast hrecast
  obtain ⟨hvalid, hvalid'⟩ := GroupLaw.Reading.valid_of_coincide hcoincide
  have hsome : members ≠ [] := by
    rintro rfl
    exact hne hmembers
  have hsome' : members' ≠ [] := by
    rintro rfl
    cases hrecast
    exact hsome rfl
  -- both sums are there, and read as the sum of the same elements
  obtain ⟨t, ht, htvalid, htread⟩ :=
    B.suite.aggregateBy_spec (B.interpretation f).toReading hmembers hpoints hvalid plan hsome
  obtain ⟨t', ht', htvalid', htread'⟩ :=
    B.suite.aggregateBy_spec (B.interpretation f).toReading hmembers' hpoints' hvalid' plan hsome'
  refine ⟨t, t', ht, ht', Suite.alike_of_coincide (B.interpretation f) ⟨htvalid, htvalid', ?_⟩⟩
  rw [htread, htread', GroupLaw.Reading.map_read_eq hcoincide]

/-- So have an element and the same in another scaling, plus such lists. -/
theorem Backend.exists_aggregateWithBy_recast {x x' : f.Point (Point Fq) (Point Fq2)}
    (hx : (B.interpretation f).Coincide x x') :
    ∃ t t', B.suite.aggregateWithBy plan f x v = .ok t ∧
      B.suite.aggregateWithBy plan f x' v' = .ok t' ∧ B.suite.Alike (.of f t) (.of f t') := by
  obtain ⟨members, members', hmembers, hmembers', hrecast⟩ := hv
  obtain ⟨points, points', hpoints, hpoints', hcoincide⟩ := coerceAll_of_recast hrecast
  obtain ⟨hvalid, hvalid'⟩ := GroupLaw.Reading.valid_of_coincide hcoincide
  obtain ⟨t, ht, htvalid, htread⟩ := B.suite.aggregateWithBy_spec
    (B.interpretation f).toReading hmembers hpoints hvalid plan hx.left
  obtain ⟨t', ht', htvalid', htread'⟩ := B.suite.aggregateWithBy_spec
    (B.interpretation f).toReading hmembers' hpoints' hvalid' plan hx.right
  refine ⟨t, t', ht, ht', Suite.alike_of_coincide (B.interpretation f) ⟨htvalid, htvalid', ?_⟩⟩
  rw [htread, htread', hx.read_eq, GroupLaw.Reading.map_read_eq hcoincide]

end

/-! ## The suite that runs -/

/-- The pairing that runs depends on what its triples stand for only. -/
theorem blind_running :
    Backend.Blind ⟨ToCurve.hash, Pairing.pair, Pairing.finalExponentiation⟩ where
  pair_left _ h :=
    Pairing.pair_congr (h.left.1.trans h.right.1.symm) rfl (laws₂.normal_eq_of_coincide h) rfl
  pair_right _ _ _ h :=
    Pairing.pair_congr rfl (h.left.1.trans h.right.1.symm) rfl (laws₁.normal_eq_of_coincide h)

/-- Keys, signatures and proofs that are members of their subgroups other than the identity can be handed
    in as triples of any scaling and as wire values of either form.  No check answers differently, a batch
    with the same weights, and sums of any family, also onto an element and in shards, give elements that
    compare as the same and are written in the same way. -/
theorem representation_independent :
    (∀ c c', bls12381.RecastCheck c c' → bls12381.check c = bls12381.check c') ∧
    ∀ (plan : Plan) (f : Family) (v v' : Value (Point Fq) (Point Fq2)),
      bls12381.RecastList f v v' →
      (bls12381.items v ≠ .ok [] → ∃ t t', bls12381.aggregateBy plan f v = .ok t ∧
        bls12381.aggregateBy plan f v' = .ok t' ∧ bls12381.Alike (.of f t) (.of f t')) ∧
      ∀ x x', MemberPoint f x → ScaledPoint f x x' →
        ∃ t t', bls12381.aggregateWithBy plan f x v = .ok t ∧
          bls12381.aggregateWithBy plan f x' v' = .ok t' ∧ bls12381.Alike (.of f t) (.of f t') := by
  rw [bls12381_eq_suite]
  refine ⟨fun c c' h => blind_running.check_eq h, ?_⟩
  intro plan f v v' hv
  refine ⟨Backend.exists_aggregateBy_recast hv plan, ?_⟩
  intro x x' hx hscaled
  exact Backend.exists_aggregateWithBy_recast hv plan (Backend.coincide_of_scaledPoint hx hscaled)

/-- Two opposite keys, as they are customarily written. -/
def writtenKeys : Value (Point Fq) (Point Fq2) := .list (elements .key [generator, generator.neg])

/-- The same keys, the first one in another scaling. -/
def scaledKeys : Value (Point Fq) (Point Fq2) :=
  .list (elements .key [generator.scaled (Fq.ofNat 2), generator.neg])

/-- With the first of two keys scaled and the signature on the wire, checks and sums are the same. -/
theorem representation_independent_scaledKeys :
    ∃ w, bls12381.toForm .compressed (.signature generator₂) = .ok w ∧
      bls12381.RecastCheck
        (.fastAggregate writtenKeys (.ofBytes [97]) (.element (.signature generator₂)))
        (.fastAggregate scaledKeys (.ofBytes [97]) (.wire w)) ∧
      bls12381.check (.fastAggregate writtenKeys (.ofBytes [97]) (.element (.signature generator₂))) =
        bls12381.check (.fastAggregate scaledKeys (.ofBytes [97]) (.wire w)) ∧
      bls12381.RecastList .key writtenKeys scaledKeys ∧ bls12381.items writtenKeys ≠ .ok [] ∧
      (∃ t t', bls12381.aggregateBy .sequential .key writtenKeys = .ok t ∧
        bls12381.aggregateBy .sequential .key scaledKeys = .ok t' ∧
        bls12381.Alike (.key t) (.key t')) ∧
      MemberPoint .key generator ∧ ScaledPoint .key generator (generator.scaled (Fq.ofNat 2)) ∧
      ∃ t t', bls12381.aggregateWithBy .sequential .key generator writtenKeys = .ok t ∧
        bls12381.aggregateWithBy .sequential .key (generator.scaled (Fq.ofNat 2)) scaledKeys = .ok t' ∧
        bls12381.Alike (.key t) (.key t') := by
  have hscaled : ScaledPoint .key generator (generator.scaled (Fq.ofNat 2)) :=
    ⟨Fq.ofNat 2, by decide, rfl⟩
  have hself : ∀ p : Point Fq, ScaledPoint .key p p := Point.Scaling.refl
  have hfirst : bls12381.Recast .key (.element (.key generator))
      (.element (.key (generator.scaled (Fq.ofNat 2)))) :=
    ⟨generator, member_generator, by decide, .scaled (hself generator), .scaled hscaled⟩
  have hsecond : bls12381.Recast .key (.element (.key generator.neg))
      (.element (.key generator.neg)) :=
    ⟨generator.neg, (neg_spec₁ member_generator).1, by decide, .scaled (hself _), .scaled (hself _)⟩
  have hkeys : bls12381.RecastList .key writtenKeys scaledKeys :=
    ⟨_, _, rfl, rfl, .cons hfirst (.cons hsecond .nil)⟩
  -- the signature is written down once, and handed in as a triple on one side and as these bytes on the
  -- other
  have hsound : SoundPoint .signature generator₂ :=
    Coding.sound_of_finite member_generator₂ (by decide)
  obtain ⟨data, hlength, hw, -⟩ := Suite.exists_toForm comparable_group .compressed hsound
  have hsignature : bls12381.Recast .signature (.element (.signature generator₂)) (.wire _) :=
    ⟨generator₂, member_generator₂, by decide, .scaled (Point.Scaling.refl generator₂), .wire hw⟩
  have hcheck := Suite.RecastCheck.fastAggregate (m := .ofBytes [97]) hkeys hsignature
  have hsome : bls12381.items writtenKeys ≠ .ok [] := by
    intro h
    cases Except.ok.inj h
  obtain ⟨hchecks, hsums⟩ := representation_independent
  obtain ⟨haggregate, honto⟩ := hsums .sequential .key _ _ hkeys
  exact ⟨_, hw, hcheck, hchecks _ _ hcheck, hkeys, hsome, haggregate hsome, member_generator, hscaled,
    honto _ _ member_generator hscaled⟩

end AggSig
