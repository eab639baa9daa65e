/-
  An aggregate signature of one message is valid exactly if it is the sum of what the keys sign, unless
  the keys cancel each other out.

  The sum of public keys is the multiple of the generator by the sum of the secret scalars, and what the
  keys sign sums up to the same multiple of the hashed message (`sum_read_signature`).  If the scalars
  sum up to zero modulo the group order, the sum of the keys is the identity, which never verifies.

  The checks that add signatures up first, one by one or in shards, come down to the check of their sum.
-/
import AggSig.Proofs.Verify.Single

namespace AggSig.Backend

variable {T : Type}

/-- The sum of the secret scalars of a list of keys. -/
def scalarSum (keys : List Keypair) : Nat := (keys.map fun k => k.secret.scalar).sum

/-- The public keys of a list of keys, as an argument. -/
def keyList (B : Backend T) (keys : List Keypair) : Value (Point Fq) (Point Fq2) :=
  .list (elements .key (keys.map B.suite.publicKey))

/-- Points of the second group, as an argument that lists signatures. -/
def signatureList (signatures : List (Point Fq2)) : Value (Point Fq) (Point Fq2) :=
  .list (elements .signature signatures)

/-- The multiples of an element by the secret scalars sum up to its multiple by their sum. -/
theorem sum_scalar_nsmul {A : Type} [AddCommGroup A] (keys : List Keypair) (a : A) :
    (keys.map fun k => k.secret.scalar • a).sum = scalarSum keys • a := by
  rw [scalarSum, List.sum_smul, List.map_map]
  rfl

/-- Public keys are in the subgroup. -/
theorem member_publicKeys (B : Backend T) (keys : List Keypair) :
    ∀ p ∈ keys.map B.suite.publicKey, coding₁.Member p := by
  intro p hp
  obtain ⟨k, -, rfl⟩ := List.mem_map.mp hp
  exact B.member_publicKey k

theorem publicKeys_ne_nil {B : Backend T} {keys : List Keypair} (hne : keys ≠ []) :
    keys.map B.suite.publicKey ≠ [] :=
  fun h => hne (List.map_eq_nil_iff.mp h)

/-- Public keys sum up to the multiple of the generator by the sum of the secret scalars. -/
theorem sum_read_publicKey (B : Backend T) (keys : List Keypair) :
    ((keys.map B.suite.publicKey).map reading₁.read).sum = scalarSum keys • g₁ := by
  rw [← sum_scalar_nsmul, List.map_map]
  congr 1
  apply List.map_congr_left
  intro k _
  exact B.read_publicKey k

/-- What keys sign for one message sums up to the hashed message times the sum of the scalars. -/
theorem sum_read_signature_of_member {B : Backend T} {m : Value (Point Fq) (Point Fq2)}
    (hm : coding₂.Member (B.messagePoint m)) (keys : List Keypair) :
    ((keys.map fun k => B.signature k.secret m).map reading₂.read).sum =
      scalarSum keys • reading₂.read (B.messagePoint m) := by
  rw [← sum_scalar_nsmul, List.map_map]
  congr 1
  apply List.map_congr_left
  intro k _
  exact reading₂.read_multiply hm k.secret.scalar

namespace Laws

variable [One T] [Mul T] {B : Backend T} {E : Type} [AddCommGroup E] (L : B.Laws E)

include L

/-- What the keys sign for one message sums up to the hashed message times the sum of the scalars. -/
theorem sum_read_signature (keys : List Keypair) (m : Value (Point Fq) (Point Fq2)) :
    ((keys.map fun k => B.signature k.secret m).map reading₂.read).sum =
      scalarSum keys • reading₂.read (B.messagePoint m) :=
  sum_read_signature_of_member (L.member_messagePoint m) keys

variable [DecidableEq T]

/-- The check of one message for the sum of public keys, in whatever way the sum was found. -/
theorem verifySignature_sum {keys : List Keypair} {key : Point Fq} {s : Point Fq2}
    {m : Value (Point Fq) (Point Fq2)} (hkey : coding₁.Member key)
    (hread : reading₁.read key = ((keys.map B.suite.publicKey).map reading₁.read).sum)
    (hs : coding₂.Member s) (hm : B.IsMessage m) :
    B.suite.verifySignature key (.element (.signature s)) m =
      .ok (decide (scalarSum keys % groupOrder ≠ 0 ∧
        reading₂.read s = ((keys.map fun k => B.signature k.secret m).map reading₂.read).sum)) := by
  rw [sum_read_publicKey] at hread
  have hzero : scalarSum keys • g₁ ≠ 0 ↔ scalarSum keys % groupOrder ≠ 0 :=
    not_congr (nsmul_eq_zero_iff g₁_ne_zero)
  rw [L.verifySignature_eq hkey hs hm, log_nsmul_of_eq hread, L.sum_read_signature, hread]
  simp only [hzero]

/-- The check of an aggregate signature of one message. -/
theorem fastAggregateVerify_eq {keys : List Keypair} {s : Point Fq2}
    {m : Value (Point Fq) (Point Fq2)} (hne : keys ≠ []) (hm : B.IsMessage m)
    (hs : coding₂.Member s) :
    B.suite.fastAggregateVerify (B.keyList keys) m (.element (.signature s)) =
      .ok (decide (scalarSum keys % groupOrder ≠ 0 ∧
        reading₂.read s = ((keys.map fun k => B.signature k.secret m).map reading₂.read).sum)) := by
  obtain ⟨key, hkey, hmember, hread⟩ := B.suite.aggregateList_spec (f := .key) reading₁
    (publicKeys_ne_nil hne) (B.member_publicKeys keys)
  have hempty : (elements .key (keys.map B.suite.publicKey) :
      List (Value (Point Fq) (Point Fq2))).isEmpty = false :=
    isEmpty_elements (publicKeys_ne_nil hne)
  rw [← L.verifySignature_sum hmember hread hs hm, keyList, Suite.fastAggregateVerify]
  simp only [Suite.items, Suite.members, hempty, Suite.coerce_signature, hkey, bind, Except.bind,
    Bool.false_eq_true, if_false]

variable {keys : List Keypair} {signatures : List (Point Fq2)} {m : Value (Point Fq) (Point Fq2)}

/-- The check that adds the signatures up one by one. -/
theorem verifyAggregate_eq (hne : keys ≠ []) (hm : B.IsMessage m) (hsne : signatures ≠ [])
    (hs : ∀ s ∈ signatures, coding₂.Member s) :
    B.suite.verifyAggregate (B.keyList keys) (signatureList signatures) m =
      .ok (decide (scalarSum keys % groupOrder ≠ 0 ∧ (signatures.map reading₂.read).sum =
        ((keys.map fun k => B.signature k.secret m).map reading₂.read).sum)) := by
  obtain ⟨key, hkey, hmember, hread⟩ := B.suite.aggregateList_spec (f := .key) reading₁
    (publicKeys_ne_nil hne) (B.member_publicKeys keys)
  obtain ⟨s, hsum, hsMember, hsRead⟩ :=
    B.suite.aggregateList_spec (f := .signature) reading₂ hsne hs
  rw [← hsRead, ← L.verifySignature_sum hmember hread hsMember hm, keyList, signatureList,
    Suite.verifyAggregate, Suite.aggregate, Suite.aggregate]
  simp only [Suite.items, Suite.members, hsum, hkey, bind, Except.bind]

/-- The check that adds both the keys and the signatures up in shards. -/
theorem shardedVerifyAggregate_eq {w : Shard.Workers} (hw : w.limit.Whole) (hne : keys ≠ [])
    (hm : B.IsMessage m) (hsne : signatures ≠ []) (hs : ∀ s ∈ signatures, coding₂.Member s) :
    B.suite.shardedVerifyAggregate w (B.keyList keys) (signatureList signatures) m =
      .ok (decide (scalarSum keys % groupOrder ≠ 0 ∧ (signatures.map reading₂.read).sum =
        ((keys.map fun k => B.signature k.secret m).map reading₂.read).sum)) := by
  obtain ⟨key, hkey, hmember, hread⟩ := B.suite.aggregateShards_spec (f := .key) reading₁
    (publicKeys_ne_nil hne) (B.member_publicKeys keys) hw
  obtain ⟨s, hsum, hsMember, hsRead⟩ :=
    B.suite.aggregateShards_spec (f := .signature) reading₂ hsne hs hw
  rw [← hsRead, ← L.verifySignature_sum hmember hread hsMember hm, keyList, signatureList,
    Suite.shardedVerifyAggregate, Suite.shardedAggregate, Suite.shardedAggregate]
  simp only [Suite.items, Suite.members, hsum, hkey, bind, Except.bind]

/-- For the public keys of secret scalars, a member of the second group passes as the aggregate
    signature of one message exactly if the scalars do not sum up to zero modulo the group order and the
    member stands for the sum of what they sign.  A list of members passes exactly if its sum does, also
    where the sums are added in shards. -/
theorem fastAggregateVerify_exact (hne : keys ≠ []) (hm : B.IsMessage m) :
    ∃ signed total, keys.mapM (fun k => B.suite.sign k.secret m) = .ok signed ∧
      B.suite.aggregate .signature (signatureList signed) = .ok total ∧ coding₂.Member total ∧
      (∀ s, coding₂.Member s →
        B.suite.fastAggregateVerify (B.keyList keys) m (.element (.signature s)) =
          .ok (decide (scalarSum keys % groupOrder ≠ 0 ∧
            reading₂.read s = reading₂.read total))) ∧
      (∀ signatures, signatures ≠ [] → (∀ s ∈ signatures, coding₂.Member s) →
        ∃ s, B.suite.aggregate .signature (signatureList signatures) = .ok s ∧
          coding₂.Member s ∧
          B.suite.verifyAggregate (B.keyList keys) (signatureList signatures) m =
            B.suite.fastAggregateVerify (B.keyList keys) m (.element (.signature s)) ∧
          ∀ w : Shard.Workers, w.limit.Whole →
            B.suite.shardedVerifyAggregate w (B.keyList keys) (signatureList signatures) m =
              B.suite.fastAggregateVerify (B.keyList keys) m (.element (.signature s))) := by
  let signed := keys.map fun k => B.signature k.secret m
  have hsign : keys.mapM (fun k => B.suite.sign k.secret m) = .ok signed :=
    mapM_ok fun k _ => sign_eq hm k.secret
  have hsigned : ∀ s ∈ signed, coding₂.Member s := by
    intro s hs
    obtain ⟨k, -, rfl⟩ := List.mem_map.mp hs
    exact L.member_signature k.secret m
  have hsignedNe : signed ≠ [] := fun h => hne (List.map_eq_nil_iff.mp h)
  obtain ⟨total, htotal, hmember, hread⟩ :=
    B.suite.aggregateList_spec (f := .signature) reading₂ hsignedNe hsigned
  refine ⟨signed, total, hsign, htotal, hmember, ?_, ?_⟩
  · intro s hs
    -- the check compares with the sum of what the signatures are read as
    rw [L.fastAggregateVerify_eq hne hm hs, hread]
  · intro signatures hsne hs
    obtain ⟨s, hsum, hsMember, hsRead⟩ :=
      B.suite.aggregateList_spec (f := .signature) reading₂ hsne hs
    refine ⟨s, hsum, hsMember, ?_, ?_⟩
    · rw [L.verifyAggregate_eq hne hm hsne hs, L.fastAggregateVerify_eq hne hm hsMember, hsRead]
    · intro w hw
      rw [L.shardedVerifyAggregate_eq hw hne hm hsne hs, L.fastAggregateVerify_eq hne hm hsMember,
        hsRead]

end Laws

/-- Two keys whose scalars cancel each other out modulo the group order. -/
def opposedKeys : List Keypair :=
  [⟨⟨7, by decide⟩, by decide⟩, ⟨⟨groupOrder - 7, by decide⟩, by decide⟩]

/-- Opposed keys accept no signature, with the pairing by logarithms. -/
theorem fastAggregateVerify_exact_opposedKeys :
    opposedKeys ≠ [] ∧ logBackend.IsMessage (.ofBytes [97]) ∧
      ∀ s, coding₂.Member s →
        logBackend.suite.fastAggregateVerify (logBackend.keyList opposedKeys) (.ofBytes [97])
          (.element (.signature s)) = .ok false := by
  have hne : opposedKeys ≠ [] := List.cons_ne_nil _ _
  have hm : logBackend.IsMessage (.ofBytes [97]) := ⟨[97], rfl⟩
  have hsum : scalarSum opposedKeys % groupOrder = 0 := by decide
  obtain ⟨signed, total, -, -, -, hfast, -⟩ := logLaws.fastAggregateVerify_exact hne hm
  refine ⟨hne, hm, ?_⟩
  intro s hs
  rw [hfast s hs, decide_eq_false (fun h => h.1 hsum)]

end AggSig.Backend
