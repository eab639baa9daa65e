/-
  Aggregation is the sum in the group, whatever the order and the grouping.

  A list of values that are taken as valid points is aggregated to a point that stands for the sum of
  the elements that its values stand for (`exists_aggregate`).  Sums do not depend on the order of their
  terms or on how they are grouped, and so neither do aggregates (`exists_aggregate_regrouped`).

  For keys and signatures the elements are multiples of one element by the secret scalars.  Hence an
  aggregate is the key or the signature of the sum of the scalars modulo the group order, and the
  identity where that is zero (`exists_aggregate_publicKeys`, `exists_aggregate_signatures`).
-/
import AggSig.Proofs.Aggregate.Shards
import AggSig.Proofs.Verify.SameMessage

namespace AggSig

namespace Suite

variable {P₁ P₂ T : Type} {S : Suite P₁ P₂ T} {f : Family} {A : Type} [AddCommGroup A]
  (I : (S.group f).Interpretation f.side A)

/-! ## Values that stand for elements -/

/-- The value is taken as a valid point. -/
def Stands (v : Value P₁ P₂) : Prop := ∃ p, S.coerce f v false = .ok p ∧ I.Valid p

/-- The element that a value stands for; zero for a value that is refused. -/
def elementRead (v : Value P₁ P₂) : A :=
  match S.coerce f v false with
  | .ok p => I.read p
  | .error _ => 0

variable {I}

theorem stands_of {p : f.Point P₁ P₂} (hp : I.Valid p) : Stands I (.element (.of f p)) :=
  ⟨p, S.coerce_of f p false, hp⟩

theorem elementRead_of (p : f.Point P₁ P₂) : elementRead I (.element (.of f p)) = I.read p := by
  rw [elementRead, coerce_of]

/-- Values that stand for elements are taken as valid triples for these. -/
theorem exists_coerceAll {values : List (Value P₁ P₂)} (h : ∀ v ∈ values, Stands I v) :
    ∃ points, S.coerceAll f values = .ok points ∧ (∀ p ∈ points, I.Valid p) ∧
      points.map I.read = values.map (elementRead I) := by
  induction values with
  | nil => exact ⟨[], rfl, fun p hp => (nomatch hp), rfl⟩
  | cons v rest ih =>
    obtain ⟨hv, hrest⟩ := List.forall_mem_cons.mp h
    obtain ⟨p, hp, hvalid⟩ := hv
    obtain ⟨points, hpoints, hvalids, hreads⟩ := ih hrest
    have hread : elementRead I v = I.read p := by rw [elementRead, hp]
    have hothers : rest.mapM (fun v => S.coerce f v false) = .ok points := hpoints
    refine ⟨p :: points, ?_, List.forall_mem_cons.mpr ⟨hvalid, hvalids⟩, ?_⟩
    · rw [coerceAll, List.mapM_cons, hp, hothers]
      rfl
    · rw [List.map_cons, List.map_cons, hread, hreads]

/-! ## Aggregates -/

/-- The aggregate of such values is read as the sum of the elements that they stand for. -/
theorem exists_aggregate {values : List (Value P₁ P₂)} (hne : values ≠ [])
    (h : ∀ v ∈ values, Stands I v) :
    ∃ t, S.aggregate f (.list values) = .ok t ∧ I.Valid t ∧
      I.read t = (values.map (elementRead I)).sum := by
  obtain ⟨points, hpoints, hvalid, hreads⟩ := exists_coerceAll h
  have hsome : points ≠ [] := by
    rintro rfl
    exact hne (eq_nil_of_mapM_eq_nil hpoints)
  obtain ⟨t, ht, htvalid, htread⟩ := S.total_spec I.toReading hsome hvalid
  refine ⟨t, ?_, htvalid, by rw [htread, hreads]⟩
  show S.aggregateList f values = .ok t
  rw [aggregateList_eq, hpoints]
  exact ht

/-- An element plus such values is read as the sum of it and the elements that they stand for. -/
theorem exists_aggregateWith {x : f.Point P₁ P₂} {values : List (Value P₁ P₂)} (hx : I.Valid x)
    (h : ∀ v ∈ values, Stands I v) :
    ∃ t, S.aggregateWith f x (.list values) = .ok t ∧ I.Valid t ∧
      I.read t = I.read x + (values.map (elementRead I)).sum := by
  obtain ⟨points, hpoints, hvalid, hreads⟩ := exists_coerceAll h
  obtain ⟨htvalid, htread⟩ := I.sum_spec hvalid hx
  refine ⟨(S.group f).sum points x, ?_, htvalid, by rw [htread, hreads]⟩
  show S.aggregateOnto f x values = .ok _
  rw [aggregateOnto, hpoints]
  rfl

/-- The order of the values does not matter, and neither does it whether the last of them are added one
    after the other or are aggregated first. -/
theorem exists_aggregate_regrouped {xs : List (Value P₁ P₂)} (hne : xs ≠ [])
    (hxs : ∀ v ∈ xs, Stands I v) :
    ∃ t, S.aggregate f (.list xs) = .ok t ∧ I.Valid t ∧
      (∀ permuted, permuted.Perm xs →
        ∃ t', S.aggregate f (.list permuted) = .ok t' ∧ S.Alike (.of f t') (.of f t)) ∧
      ∀ ys, (∀ v ∈ ys, Stands I v) →
        ∃ onto whole, S.aggregateWith f t (.list ys) = .ok onto ∧
          S.aggregate f (.list (xs ++ ys)) = .ok whole ∧ S.Alike (.of f onto) (.of f whole) ∧
          (ys ≠ [] → ∃ u both, S.aggregate f (.list ys) = .ok u ∧
            S.aggregate f (.list [.element (.of f t), .element (.of f u)]) = .ok both ∧
            S.Alike (.of f both) (.of f whole)) := by
  obtain ⟨t, ht, htvalid, htread⟩ := exists_aggregate hne hxs
  refine ⟨t, ht, htvalid, ?_, ?_⟩
  -- a sum in the group does not depend on the order
  · intro permuted hperm
    have hne' : permuted ≠ [] := fun h => hne (by simpa [h] using hperm)
    obtain ⟨t', ht', htvalid', htread'⟩ :=
      exists_aggregate hne' fun v hv => hxs v (hperm.subset hv)
    refine ⟨t', ht', alike_of_coincide I ⟨htvalid', htvalid, ?_⟩⟩
    rw [htread', htread, (hperm.map (elementRead I)).sum_eq]
  · intro ys hys
    have hall : ∀ v ∈ xs ++ ys, Stands I v := by
      intro v hv
      rcases List.mem_append.mp hv with hv | hv
      · exact hxs v hv
      · exact hys v hv
    have hne' : xs ++ ys ≠ [] := List.append_ne_nil_of_left_ne_nil hne ys
    obtain ⟨onto, honto, hontoValid, hontoRead⟩ := exists_aggregateWith htvalid hys
    obtain ⟨whole, hwhole, hwholeValid, hwholeRead⟩ := exists_aggregate hne' hall
    -- both are the sum of what the two lists stand for
    have hsum : I.read t + (ys.map (elementRead I)).sum = I.read whole := by
      rw [hwholeRead, List.map_append, List.sum_append, htread]
    refine ⟨onto, whole, honto, hwhole, ?_, ?_⟩
    · exact alike_of_coincide I ⟨hontoValid, hwholeValid, hontoRead.trans hsum⟩
    · intro hysne
      obtain ⟨u, hu, huvalid, huread⟩ := exists_aggregate hysne hys
      obtain ⟨both, hboth, hbothValid, hbothRead⟩ :=
        exists_aggregate (I := I) (List.cons_ne_nil _ [.element (.of f u)])
          (List.forall_mem_cons.mpr ⟨stands_of htvalid,
            List.forall_mem_cons.mpr ⟨stands_of huvalid, fun v hv => (nomatch hv)⟩⟩)
      refine ⟨u, both, hu, hboth, alike_of_coincide I ⟨hbothValid, hwholeValid, ?_⟩⟩
      rw [hbothRead, ← hsum, ← huread]
      simp only [List.map_cons, List.map_nil, List.sum_cons, List.sum_nil, add_zero, elementRead_of]

end Suite

namespace Backend

variable {T : Type} (B : Backend T)

/-! ## Keys and signatures -/

/-- The aggregate of public keys is the public key of the sum of their scalars, and the identity where
    that sum is zero modulo the group order. -/
theorem exists_aggregate_publicKeys {keys : List Keypair} (hne : keys ≠ []) {secret : SecretKey}
    (hsecret : secret.scalar = scalarSum keys % groupOrder) :
    ∃ key, B.suite.aggregate .key (B.keyList keys) = .ok key ∧
      (secret.scalar ≠ 0 → ∃ k, Keypair.ofSecret secret = .ok k ∧
        B.suite.Alike (.key key) (.key (B.suite.publicKey k))) ∧
      (secret.scalar = 0 → B.suite.group₁.isIdentity key = true ∧
        B.suite.Alike (.key key) (.key B.suite.group₁.identity)) := by
  obtain ⟨key, hkey, hmember, hread⟩ := B.suite.aggregateList_spec (f := .key) reading₁
    (publicKeys_ne_nil hne) (B.member_publicKeys keys)
  rw [sum_read_publicKey] at hread
  refine ⟨key, hkey, ?_, ?_⟩
  · intro hnonzero
    let k : Keypair := ⟨secret, hnonzero⟩
    refine ⟨k, dif_neg hnonzero, ?_⟩
    -- the generator has the group order, so the sum of the scalars counts modulo that
    have hsame : reading₁.read key = reading₁.read (B.suite.publicKey k) := by
      rw [hread, B.read_publicKey]
      refine nsmul_congr g₁ ?_
      show scalarSum keys ≡ secret.scalar [MOD groupOrder]
      rw [hsecret]
      exact (Nat.mod_modEq _ _).symm
    exact Suite.alike_of_coincide (f := .key) (B.interpretation .key)
      ⟨hmember, B.member_publicKey k, hsame⟩
  · intro hzero
    -- a multiple of the generator is zero only for a multiple of the group order
    have hread0 : reading₁.read key = 0 := by
      rw [hread, nsmul_eq_zero_iff g₁_ne_zero, ← hsecret]
      exact hzero
    refine ⟨(reading₁.isIdentity_iff hmember).mpr hread0, ?_⟩
    exact Suite.alike_of_coincide (f := .key) (B.interpretation .key)
      ⟨hmember, reading₁.valid_identity, hread0.trans reading₁.read_identity.symm⟩

/-- The aggregate of what keys sign for one message is what the sum of their scalars signs for it. -/
theorem exists_aggregate_signatures {keys : List Keypair} (hne : keys ≠ []) {secret : SecretKey}
    (hsecret : secret.scalar = scalarSum keys % groupOrder) {m : Value (Point Fq) (Point Fq2)}
    (hm : B.IsMessage m) (hmember : coding₂.Member (B.messagePoint m)) :
    ∃ signed s t, keys.mapM (fun k => B.suite.sign k.secret m) = .ok signed ∧
      B.suite.aggregate .signature (signatureList signed) = .ok s ∧
      B.suite.sign secret m = .ok t ∧ B.suite.Alike (.signature s) (.signature t) := by
  let signed := keys.map fun k => B.signature k.secret m
  have hsigned : ∀ s ∈ signed, coding₂.Member s := by
    intro s hs
    obtain ⟨k, -, rfl⟩ := List.mem_map.mp hs
    exact reading₂.valid_multiply hmember k.secret.scalar
  have hsignedNe : signed ≠ [] := fun h => hne (List.map_eq_nil_iff.mp h)
  obtain ⟨s, hs, hvalid, hread⟩ :=
    B.suite.aggregateList_spec (f := .signature) reading₂ hsignedNe hsigned
  refine ⟨signed, s, B.signature secret m, mapM_ok fun k _ => sign_eq hm k.secret, hs,
    sign_eq hm secret, ?_⟩
  -- the point of the message has the group order as well
  have hsame : reading₂.read s = reading₂.read (B.signature secret m) := by
    rw [hread, sum_read_signature_of_member hmember]
    refine Eq.trans ?_ (reading₂.read_multiply hmember secret.scalar).symm
    refine nsmul_congr _ ?_
    rw [hsecret]
    exact (Nat.mod_modEq _ _).symm
  exact Suite.alike_of_coincide (f := .signature) (B.interpretation .signature)
    ⟨hvalid, reading₂.valid_multiply hmember secret.scalar, hsame⟩

/-! ## Every family -/

/-- The value is a member of the subgroup of a family or encodes one. -/
def IsMember (f : Family) (v : Value (Point Fq) (Point Fq2)) : Prop :=
  ∃ p, B.suite.coerce f v false = .ok p ∧ MemberPoint f p

variable {B}

theorem stands_of_isMember {f : Family} {v : Value (Point Fq) (Point Fq2)} (h : B.IsMember f v) :
    Suite.Stands (B.interpretation f) v := by
  obtain ⟨p, hp, hmember⟩ := h
  exact ⟨p, hp, B.valid_interpretation.mpr hmember⟩

theorem isMember_of {f : Family} {p : f.Point (Point Fq) (Point Fq2)} (hp : MemberPoint f p) :
    B.IsMember f (.element (.of f p)) :=
  ⟨p, B.suite.coerce_of f p false, hp⟩

variable (B)

/-- Secret scalars go over to sums.  For every list of keys that is not empty, the aggregate of the public
    keys is the public key of the sum of the scalars modulo the group order, or the identity where that
    is zero, and the aggregate of what the keys sign for a message is what the sum signs for it, as far
    as the message hashes to a member.

    In every family, aggregating a list of members does not depend on their order, and further members
    can be added one after the other, or with the list, or as an aggregate of their own. -/
theorem aggregate_homomorphic :
    (∀ keys : List Keypair, keys ≠ [] →
      ∃ secret, SecretKey.ofInt (scalarSum keys % groupOrder : Nat) = .ok secret ∧
        (∃ key, B.suite.aggregate .key (B.keyList keys) = .ok key ∧
          (secret.scalar ≠ 0 → ∃ k, Keypair.ofSecret secret = .ok k ∧
            B.suite.Alike (.key key) (.key (B.suite.publicKey k))) ∧
          (secret.scalar = 0 → B.suite.group₁.isIdentity key = true ∧
            B.suite.Alike (.key key) (.key B.suite.group₁.identity))) ∧
        ∀ m data, B.suite.bytesOf m = .ok data → coding₂.Member (B.hash .message data) →
          ∃ signed s t, keys.mapM (fun k => B.suite.sign k.secret m) = .ok signed ∧
            B.suite.aggregate .signature (signatureList signed) = .ok s ∧
            B.suite.sign secret m = .ok t ∧ B.suite.Alike (.signature s) (.signature t)) ∧
    ∀ f xs, xs ≠ [] → (∀ v ∈ xs, B.IsMember f v) →
      ∃ t, B.suite.aggregate f (.list xs) = .ok t ∧ MemberPoint f t ∧
        (∀ permuted, permuted.Perm xs → ∃ t', B.suite.aggregate f (.list permuted) = .ok t' ∧
          B.suite.Alike (.of f t') (.of f t)) ∧
        ∀ ys, (∀ v ∈ ys, B.IsMember f v) →
          ∃ onto whole, B.suite.aggregateWith f t (.list ys) = .ok onto ∧
            B.suite.aggregate f (.list (xs ++ ys)) = .ok whole ∧
            B.suite.Alike (.of f onto) (.of f whole) ∧
            (ys ≠ [] → ∃ u both, B.suite.aggregate f (.list ys) = .ok u ∧
              B.suite.aggregate f (.list [.element (.of f t), .element (.of f u)]) = .ok both ∧
              B.suite.Alike (.of f both) (.of f whole)) := by
  constructor
  · intro keys hne
    let secret : SecretKey :=
      ⟨scalarSum keys % groupOrder, Nat.mod_lt _ prime_groupOrder.pos⟩
    refine ⟨secret, SecretKey.ofInt_scalar secret, B.exists_aggregate_publicKeys hne rfl, ?_⟩
    intro m data hdata hmember
    have hpoint : B.messagePoint m = B.hash .message data := by rw [messagePoint, hdata]
    rw [← hpoint] at hmember
    exact B.exists_aggregate_signatures hne rfl ⟨data, hdata⟩ hmember
  · intro f xs hne hxs
    obtain ⟨t, ht, hvalid, hperm, happend⟩ :=
      Suite.exists_aggregate_regrouped hne fun v hv => stands_of_isMember (hxs v hv)
    refine ⟨t, ht, B.valid_interpretation.mp hvalid, hperm, ?_⟩
    intro ys hys
    exact happend ys fun v hv => stands_of_isMember (hys v hv)

/-- Opposed keys aggregate to the identity, what they sign aggregates to what zero signs, and neither the
    order of two keys matters nor whether they are added twice or listed twice. -/
theorem aggregate_homomorphic_opposedKeys :
    opposedKeys ≠ [] ∧ coding₂.Member (logBackend.hash .message [97]) ∧
      (∀ v ∈ elements .key [generator, generator.neg], logBackend.IsMember .key v) ∧
      (∃ key, logBackend.suite.aggregate .key (logBackend.keyList opposedKeys) = .ok key ∧
        logBackend.suite.group₁.isIdentity key = true) ∧
      (∃ signed s t, opposedKeys.mapM (fun k => logBackend.suite.sign k.secret (.ofBytes [97])) =
          .ok signed ∧
        logBackend.suite.aggregate .signature (signatureList signed) = .ok s ∧
        logBackend.suite.sign ⟨0, by decide⟩ (.ofBytes [97]) = .ok t ∧
        logBackend.suite.Alike (.signature s) (.signature t)) ∧
      ∃ t t' onto whole,
        logBackend.suite.aggregate .key (.list (elements .key [generator, generator.neg])) = .ok t ∧
        logBackend.suite.aggregate .key (.list (elements .key [generator.neg, generator])) = .ok t' ∧
        logBackend.suite.Alike (.key t') (.key t) ∧
        logBackend.suite.aggregateWith .key t (.list (elements .key [generator, generator.neg])) =
          .ok onto ∧
        logBackend.suite.aggregate .key
          (.list (elements .key [generator, generator.neg, generator, generator.neg])) = .ok whole ∧
        logBackend.suite.Alike (.key onto) (.key whole) := by
  have hne : opposedKeys ≠ [] := List.cons_ne_nil _ _
  have hhash : coding₂.Member (logBackend.hash .message [97]) := logLaws.member_hash .message [97]
  have hmembers : ∀ v ∈ elements .key [generator, generator.neg], logBackend.IsMember .key v := by
    intro v hv
    rcases List.mem_pair.mp hv with rfl | rfl
    · exact isMember_of (f := .key) member_generator
    · exact isMember_of (f := .key) (neg_spec₁ member_generator).1
  obtain ⟨hkeys, hfamilies⟩ := logBackend.aggregate_homomorphic
  obtain ⟨secret, hsecret, ⟨key, hkey, -, hidentity⟩, hsigned⟩ := hkeys opposedKeys hne
  have hsum : scalarSum opposedKeys % groupOrder = 0 := by decide
  obtain rfl : secret = ⟨0, by decide⟩ := by
    rw [hsum] at hsecret
    exact Except.ok.inj (hsecret.symm.trans (SecretKey.ofInt_scalar ⟨0, by decide⟩))
  obtain ⟨t, ht, -, hperm, happend⟩ := hfamilies .key _ (List.cons_ne_nil _ _) hmembers
  obtain ⟨t', ht', halike⟩ := hperm (elements .key [generator.neg, generator]) (List.Perm.swap _ _ _)
  obtain ⟨onto, whole, honto, hwhole, halike', -⟩ := happend _ hmembers
  exact ⟨hne, hhash, hmembers, ⟨key, hkey, (hidentity rfl).1⟩,
    hsigned (.ofBytes [97]) [97] rfl hhash, t, t', onto, whole, ht, ht', halike, honto, hwhole,
    halike'⟩

end Backend

end AggSig
