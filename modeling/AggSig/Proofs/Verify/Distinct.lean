/-
  An aggregate signature of distinct messages is valid exactly if it is the sum of what the keys sign.

  `verifyPairs_eq` decides the check for any member keys, each with its message: no key may be the
  identity, and the signature has to be the sum of the hashed messages, each multiplied by the logarithm
  of its own key.  Such a sum does not depend on the order of the pairs, so neither does the answer.
-/
import AggSig.Proofs.Verify.Single

namespace AggSig.Backend

variable {T : Type}

/-- A key with the message that it signs. -/
abbrev Signing : Type := Keypair × Value (Point Fq) (Point Fq2)

/-- The public keys of a list of signings, as arguments. -/
def keyArguments (B : Backend T) (signings : List Signing) : List (Value (Point Fq) (Point Fq2)) :=
  elements .key (signings.map fun i => B.suite.publicKey i.1)

/-- The messages of a list of signings, as arguments. -/
def messageArguments (signings : List Signing) : List (Value (Point Fq) (Point Fq2)) :=
  signings.map Prod.snd

variable [One T] [Mul T] [DecidableEq T]

/-- The check of an aggregate signature for a list of signings. -/
def verifyTotal (B : Backend T) (signings : List Signing) (s : Point Fq2) : Except Failure Bool :=
  B.suite.verifyDistinctAggregated (.list (B.keyArguments signings)) (.element (.signature s))
    (.list (messageArguments signings))

/-- The check of one signature for each of a list of signings. -/
def verifyEach (B : Backend T) (signings : List Signing) (signatures : List (Point Fq2)) :
    Except Failure Bool :=
  B.suite.verifyDistinct (.list (B.keyArguments signings)) (.list (elements .signature signatures))
    (.list (messageArguments signings))

namespace Laws

variable {B : Backend T} {E : Type} [AddCommGroup E]
  (L : B.Laws E)

include L

/-- The check of an aggregate signature for a list of member keys and their messages. -/
theorem verifyPairs_eq {items : List (Point Fq × Value (Point Fq) (Point Fq2))} {s : Point Fq2}
    (hne : items ≠ []) (hkeys : ∀ i ∈ items, coding₁.Member i.1)
    (hm : ∀ i ∈ items, B.IsMessage i.2) (hs : coding₂.Member s) :
    B.suite.verifyPairs (elements .key (items.map Prod.fst)) (.element (.signature s))
        (items.map Prod.snd) =
      .ok (decide ((∀ i ∈ items, reading₁.read i.1 ≠ 0) ∧ reading₂.read s =
        (items.map fun i => log (reading₁.read i.1) • reading₂.read (B.messagePoint i.2)).sum)) := by
  have hcheck : Suite.checkDistinct .distinctAggregated (elements .key (items.map Prod.fst))
      (items.map Prod.snd) = .ok () :=
    Suite.checkDistinct_eq_ok (by simp) (by simpa [elements] using hne)
  have hpoints := B.suite.coerceAll_elements .key (items.map Prod.fst)
  have hmembers : ∀ k ∈ items.map Prod.fst, coding₁.Member k := List.forall_mem_map.mpr hkeys
  have hidentity : (items.map Prod.fst).any B.suite.group₁.isIdentity = false ↔
      ∀ i ∈ items, reading₁.read i.1 ≠ 0 :=
    (reading₁.any_isIdentity_eq_false_iff hmembers).trans List.forall_mem_map
  rw [Suite.verifyPairs, hcheck, Suite.coerce_signature, hpoints]
  simp only [bind, Except.bind, pure, Except.pure]
  by_cases hzero : ∀ i ∈ items, reading₁.read i.1 ≠ 0
  · -- every key has its own message in its place
    have hhashes := hashMessages_eq (List.forall_mem_map.mpr hm)
    have hzip : ((items.map Prod.snd).map B.messagePoint).zip (items.map Prod.fst) =
        items.map fun i => (B.messagePoint i.2, i.1) := by
      rw [List.map_map, List.zip_map']
      rfl
    have hpairs : ∀ p ∈ items.map fun i => (B.messagePoint i.2, i.1),
        coding₂.Member p.1 ∧ coding₁.Member p.2 := by
      intro p hp
      obtain ⟨i, hi, rfl⟩ := List.mem_map.mp hp
      exact ⟨L.member_messagePoint i.2, hkeys i hi⟩
    have hpairing := L.pairingCheck_eq hpairs hs
    rw [List.map_map] at hpairing
    rw [if_neg (ne_true_of_eq_false (hidentity.mpr hzero)), hhashes]
    simp only [hzip, hpairing]
    congr 1
    rw [decide_eq_decide]
    exact (and_iff_right hzero).symm
  · have hsome := eq_true_of_ne_false (fun h => hzero (hidentity.mp h))
    rw [if_pos hsome, decide_eq_false (fun h => hzero h.1)]

/-- For public keys the logarithms are the secret scalars, so the sum is that of what they sign. -/
theorem verifyTotal_eq {signings : List Signing} {s : Point Fq2} (hne : signings ≠ [])
    (hm : ∀ i ∈ signings, B.IsMessage i.2) (hs : coding₂.Member s) :
    B.verifyTotal signings s =
      .ok (decide (reading₂.read s =
        (signings.map fun i => reading₂.read (B.signature i.1.secret i.2)).sum)) := by
  have hkeys : B.keyArguments signings =
      elements .key ((signings.map fun i => (B.suite.publicKey i.1, i.2)).map Prod.fst) := by
    rw [keyArguments, List.map_map]
    rfl
  have hmessages : messageArguments signings =
      (signings.map fun i => (B.suite.publicKey i.1, i.2)).map Prod.snd := by
    rw [messageArguments, List.map_map]
    rfl
  have hnonzero : ∀ i ∈ signings.map fun i => (B.suite.publicKey i.1, i.2),
      reading₁.read i.1 ≠ 0 := by
    intro p hp
    obtain ⟨i, -, rfl⟩ := List.mem_map.mp hp
    exact B.read_publicKey_ne_zero i.1
  -- the pairing of a key with a message is that of the generator with the signature
  have hsum : ((signings.map fun i => (B.suite.publicKey i.1, i.2)).map fun i =>
        log (reading₁.read i.1) • reading₂.read (B.messagePoint i.2)).sum =
      (signings.map fun i => reading₂.read (B.signature i.1.secret i.2)).sum := by
    rw [List.map_map]
    congr 1
    apply List.map_congr_left
    intro i _
    rw [L.read_signature]
    exact log_nsmul_of_eq (B.read_publicKey i.1) _
  show B.suite.verifyPairs (B.keyArguments signings) (.element (.signature s))
    (messageArguments signings) = _
  rw [hkeys, hmessages, L.verifyPairs_eq (by simpa using hne) ?_ ?_ hs, hsum]
  · congr 1
    rw [decide_eq_decide]
    exact and_iff_right hnonzero
  · intro p hp
    obtain ⟨i, -, rfl⟩ := List.mem_map.mp hp
    exact B.member_publicKey i.1
  · intro p hp
    obtain ⟨i, hi, rfl⟩ := List.mem_map.mp hp
    exact hm i hi

/-- The check of one signature for each key adds the signatures up first. -/
theorem verifyEach_eq {signings : List Signing} {signatures : List (Point Fq2)}
    (hlength : signatures.length = signings.length) (hne : signings ≠ [])
    (hm : ∀ i ∈ signings, B.IsMessage i.2) (hs : ∀ s ∈ signatures, coding₂.Member s) :
    B.verifyEach signings signatures =
      .ok (decide ((signatures.map reading₂.read).sum =
        (signings.map fun i => reading₂.read (B.signature i.1.secret i.2)).sum)) := by
  have hnil : signatures ≠ [] := by
    rintro rfl
    exact hne (List.eq_nil_of_length_eq_zero hlength.symm)
  obtain ⟨total, htotal, hmember, hread⟩ :=
    B.suite.aggregateList_spec (f := .signature) reading₂ hnil hs
  have hcheck : Suite.checkDistinct .distinct (B.keyArguments signings)
      (messageArguments signings) = .ok () :=
    Suite.checkDistinct_eq_ok (by simp [keyArguments, messageArguments])
      (by simpa [keyArguments, elements] using hne)
  have hsignatures : Suite.checkSignatures .distinct (B.keyArguments signings)
      (elements .signature signatures) = .ok () := by
    simp [Suite.checkSignatures, keyArguments, hlength]
  -- once the signatures are added, the check is the one of the sum
  rw [← hread, ← L.verifyTotal_eq hne hm hmember, verifyEach, Suite.verifyDistinct]
  simp only [Suite.items, Suite.members, hcheck, hsignatures, htotal, bind, Except.bind]
  rfl

/-- For keys of secret scalars, a member of the second group passes as the aggregate signature of their
    messages exactly if it stands for the sum of what the scalars sign, and one member for each key
    passes exactly if their sum does.  No order of the keys and their messages changes the answer, and
    what the scalars sign passes. -/
theorem verifyDistinct_exact {signings : List Signing} (hne : signings ≠ [])
    (hm : ∀ i ∈ signings, B.IsMessage i.2) :
    ∃ signed, signings.mapM (fun i => B.suite.sign i.1.secret i.2) = .ok signed ∧
      (∀ s ∈ signed, coding₂.Member s) ∧
      (∀ s, coding₂.Member s →
        B.verifyTotal signings s =
          .ok (decide (reading₂.read s = (signed.map reading₂.read).sum))) ∧
      (∀ signatures : List (Point Fq2), signatures.length = signings.length →
        (∀ s ∈ signatures, coding₂.Member s) →
        B.verifyEach signings signatures =
          .ok (decide ((signatures.map reading₂.read).sum = (signed.map reading₂.read).sum))) ∧
      (∀ permuted : List Signing, permuted.Perm signings →
        (∀ s, coding₂.Member s → B.verifyTotal permuted s = B.verifyTotal signings s) ∧
        (∀ signatures : List (Point Fq2), signatures.length = signings.length →
          (∀ s ∈ signatures, coding₂.Member s) →
          B.verifyEach permuted signatures = B.verifyEach signings signatures)) ∧
      (∃ total, B.suite.aggregate .signature (.list (elements .signature signed)) = .ok total ∧
        B.verifyTotal signings total = .ok true) ∧
      B.verifyEach signings signed = .ok true := by
  let signed := signings.map fun i => B.signature i.1.secret i.2
  have hsign : signings.mapM (fun i => B.suite.sign i.1.secret i.2) = .ok signed :=
    mapM_ok fun i hi => sign_eq (hm i hi) i.1.secret
  have hmember : ∀ s ∈ signed, coding₂.Member s := by
    intro s hs
    obtain ⟨i, -, rfl⟩ := List.mem_map.mp hs
    exact L.member_signature i.1.secret i.2
  have hsum : (signings.map fun i => reading₂.read (B.signature i.1.secret i.2)).sum =
      (signed.map reading₂.read).sum := by
    rw [List.map_map]
    rfl
  have hlength : signed.length = signings.length := List.length_map _
  refine ⟨signed, hsign, hmember, ?_, ?_, ?_, ?_, ?_⟩
  · intro s hs
    rw [L.verifyTotal_eq hne hm hs, hsum]
  · intro signatures hlen hs
    rw [L.verifyEach_eq hlen hne hm hs, hsum]
  · -- the sum over the permuted list is the same
    intro permuted hperm
    have hne' : permuted ≠ [] := fun h => hne (by simpa [h] using hperm)
    have hm' : ∀ i ∈ permuted, B.IsMessage i.2 := fun i hi => hm i (hperm.subset hi)
    have hsum' := (hperm.map fun i => reading₂.read (B.signature i.1.secret i.2)).sum_eq
    constructor
    · intro s hs
      rw [L.verifyTotal_eq hne' hm' hs, L.verifyTotal_eq hne hm hs, hsum']
    · intro signatures hlen hs
      rw [L.verifyEach_eq (hlen.trans hperm.length_eq.symm) hne' hm' hs,
        L.verifyEach_eq hlen hne hm hs, hsum']
  · have hnil : signed ≠ [] := fun h => hne (List.map_eq_nil_iff.mp h)
    obtain ⟨total, htotal, hvalid, hread⟩ :=
      B.suite.aggregateList_spec (f := .signature) reading₂ hnil hmember
    refine ⟨total, htotal, ?_⟩
    rw [L.verifyTotal_eq hne hm hvalid, hsum, hread, decide_eq_true rfl]
  · rw [L.verifyEach_eq hlength hne hm hmember, hsum, decide_eq_true rfl]

end Laws

/-- Two keys that sign; the second signs two messages, one of them like the first key. -/
def threeSignings : List Signing :=
  [(⟨⟨3, by decide⟩, by decide⟩, .ofBytes [97]), (⟨⟨5, by decide⟩, by decide⟩, .ofBytes [98]),
    (⟨⟨5, by decide⟩, by decide⟩, .ofBytes [97])]

/-- The checks of these signings, with the pairing by logarithms. -/
theorem verifyDistinct_exact_threeSignings :
    threeSignings ≠ [] ∧ (∀ i ∈ threeSignings, logBackend.IsMessage i.2) ∧
      ∃ signed, threeSignings.mapM (fun i => logBackend.suite.sign i.1.secret i.2) = .ok signed ∧
        logBackend.verifyTotal threeSignings generator₂ =
          .ok (decide (reading₂.read generator₂ = (signed.map reading₂.read).sum)) ∧
        logBackend.verifyEach threeSignings signed = .ok true := by
  have hne : threeSignings ≠ [] := List.cons_ne_nil _ _
  have hm : ∀ i ∈ threeSignings, logBackend.IsMessage i.2 := by
    simp only [threeSignings, List.mem_cons, List.not_mem_nil, or_false]
    rintro i (rfl | rfl | rfl) <;> exact ⟨_, rfl⟩
  obtain ⟨signed, hsign, -, htotal, -, -, -, heach⟩ := logLaws.verifyDistinct_exact hne hm
  exact ⟨hne, hm, signed, hsign, htotal generator₂ member_generator₂, heach⟩

end AggSig.Backend
