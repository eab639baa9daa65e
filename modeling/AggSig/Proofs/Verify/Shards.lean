/-
  Checks of distinct messages in shards answer like those without.

  A product of pairings over a list is the product of those over its pieces (`messageProduct_flatten`),
  because multiplication is associative and every piece starts from one; and the pairs are looked at in
  the order of the list in either case, so that the first one without a pairing fails both.  What comes
  before the pairings is the same: the checks of the lengths, the signature, the keys, identity keys
  and the messages.

  A list of signatures is added up in another grouping.  The sums stand for one element, and so they have
  one pairing with the generator.

  Only the names of the checks differ, which the messages of their failures show.
-/
import AggSig.Proofs.Aggregate.Shards
import AggSig.Proofs.Pairing.Scaling

namespace AggSig

namespace Suite

variable {P₁ P₂ T : Type} (S : Suite P₁ P₂ T)

/-! ## Products of pairings -/

section

variable [Monoid T]

/-- What the product starts with is a factor of it. -/
theorem foldlM_pairing (pairs : List (P₂ × P₁)) (t : T) :
    pairs.foldlM (fun product (h, k) => (product * ·) <$> S.pair h k) t =
      (t * ·) <$> S.pairingProduct pairs := by
  -- on the pairs; the product that they follow on changes with each of them
  rw [pairingProduct]
  induction pairs generalizing t with
  | nil => exact congrArg Except.ok (mul_one t).symm
  | cons p rest ih =>
    rw [List.foldlM_cons, List.foldlM_cons]
    cases hpair : S.pair p.1 p.2 with
    | error failure => simp only [hpair]; rfl
    | ok v =>
      simp only [hpair]
      show List.foldlM _ (t * v) rest = (t * ·) <$> List.foldlM _ (1 * v) rest
      rw [ih, ih (1 * v), one_mul]
      cases List.foldlM (fun product (x : P₂ × P₁) => (product * ·) <$> S.pair x.1 x.2) 1 rest with
      | error failure => rfl
      | ok u => exact congrArg Except.ok (mul_assoc t v u)

/-- The product over two lists, one after the other. -/
theorem pairingProduct_append (pairs rest : List (P₂ × P₁)) :
    S.pairingProduct (pairs ++ rest) =
      S.pairingProduct pairs >>= fun t => (t * ·) <$> S.pairingProduct rest := by
  rw [pairingProduct, List.foldlM_append]
  show (S.pairingProduct pairs >>= fun t => List.foldlM _ t rest) = _
  congr 1
  funext t
  exact S.foldlM_pairing rest t

/-- The product over messages is that of the front part and that of the rest. -/
theorem messageProduct_append (items rest : List (Bytes × P₁)) :
    S.messageProduct (items ++ rest) =
      S.messageProduct items >>= fun t => (t * ·) <$> S.messageProduct rest := by
  rw [messageProduct, List.map_append, pairingProduct_append]
  rfl

/-- The products over the pieces of a list multiply to the product over the list. -/
theorem messageProduct_flatten (pieces : List (List (Bytes × P₁))) :
    (fun products => products.foldl (· * ·) 1) <$> pieces.mapM S.messageProduct =
      S.messageProduct pieces.flatten := by
  simp only [← List.prod_eq_foldl]
  induction pieces with
  | nil => rfl
  | cons piece rest ih =>
    rw [List.flatten_cons, messageProduct_append, ← ih, List.mapM_cons]
    cases S.messageProduct piece with
    | error failure => rfl
    | ok t =>
      cases rest.mapM S.messageProduct with
      | error failure => rfl
      | ok products => exact congrArg Except.ok List.prod_cons

/-- Computed in shards or not, the product over messages and as many keys is the same. -/
theorem shardedMessageProduct_eq {w : Shard.Workers} (hw : w.limit.Whole) {points : List P₁}
    {messages : List (Value P₁ P₂)} (hlength : messages.length = points.length) :
    S.shardedMessageProduct w points messages =
      messages.mapM S.bytesOf >>= fun contents => S.messageProduct (contents.zip points) := by
  rw [shardedMessageProduct, ← hlength, List.take_length]
  congr 1
  funext contents
  obtain ⟨n, hcount⟩ := w.exists_count hw (contents.zip points).length
  have hflatten := Shard.flatten_chunks (Shard.Workers.one_le_of_count hcount) (contents.zip points)
  conv_rhs => rw [← hflatten, ← messageProduct_flatten]
  rw [Shard.shards, hcount]
  rfl

end

/-! ## Checks -/

section

variable [One T] [Mul T] [DecidableEq T]

/-- A check of pairs multiplies the pairing of the last one to the product of the others. -/
theorem pairingCheck_append_single (pairs : List (P₂ × P₁)) (h : P₂) (k : P₁) :
    S.pairingCheck (pairs ++ [(h, k)]) =
      S.pairingProduct pairs >>= fun product =>
        S.pair h k >>= fun last => .ok (S.isOne (product * last)) := by
  rw [pairingCheck, pairingProduct, List.foldlM_append]
  show S.isOne <$> (S.pairingProduct pairs >>= fun t => List.foldlM _ t [(h, k)]) = _
  cases S.pairingProduct pairs with
  | error failure => rfl
  | ok t =>
    show S.isOne <$> (((t * ·) <$> S.pair h k) >>= pure) = _
    cases S.pair h k <;> rfl

/-- What is left to check once keys and signature are decoded: no key is the identity, and the pairings of
    the keys with their messages and of the signature with the generator multiply to one. -/
def checkPoints (points : List P₁) (messages : List (Value P₁ P₂)) (s : P₂) : Except Failure Bool :=
  if points.any S.group₁.isIdentity then .ok false
  else do
    let contents ← messages.mapM S.bytesOf
    let product ← S.messageProduct (contents.zip points)
    let last ← S.pair s S.generatorNeg
    return S.isOne (product * last)

/-- The messages are not hashed before the keys have been looked at for the identity. -/
theorem verifyPairs_eq (keys : List (Value P₁ P₂)) (signature : Value P₁ P₂)
    (messages : List (Value P₁ P₂)) :
    S.verifyPairs keys signature messages =
      checkDistinct .distinctAggregated keys messages >>= fun _ =>
        S.coerce .signature signature false >>= fun s =>
          S.coerceAll .key keys >>= fun points => S.checkPoints points messages s := by
  have hhashes : messages.mapM S.hashMessage =
      List.map (S.hash .message) <$> messages.mapM S.bytesOf :=
    mapM_map_results S.bytesOf (S.hash .message) messages
  rw [verifyPairs]
  -- up to the points both sides are one computation; after that the messages are listed before they are
  -- hashed
  congr 1; funext _
  congr 1; funext s
  congr 1; funext points
  rw [checkPoints, hhashes, bind_map_left]
  split
  · rfl
  · congr 1
    funext contents
    rw [pairingCheck_append_single, List.zip_map_left]
    rfl

end

section

variable [Monoid T] [DecidableEq T]

/-- With as many messages as keys, the check in shards is left with the same. -/
theorem shardedVerifyPairs_eq {w : Shard.Workers} (hw : w.limit.Whole) {keys : List (Value P₁ P₂)}
    {messages : List (Value P₁ P₂)} (hlength : keys.length = messages.length)
    (signature : Value P₁ P₂) :
    S.shardedVerifyPairs w keys signature messages =
      checkDistinct .shardedDistinctAggregated keys messages >>= fun _ =>
        S.coerce .signature signature false >>= fun s =>
          S.coerceAll .key keys >>= fun points => S.checkPoints points messages s := by
  rw [shardedVerifyPairs]
  congr 1; funext _
  congr 1; funext s
  cases hpoints : S.coerceAll .key keys with
  | error failure => rfl
  | ok points =>
    have hpointsLength : messages.length = points.length :=
      hlength.symm.trans (length_of_mapM_eq_ok hpoints).symm
    -- the product over shards is that of the list, since points and messages are as many
    show (if points.any S.group₁.isIdentity then _ else _) = S.checkPoints points messages s
    rw [checkPoints, S.shardedMessageProduct_eq hw hpointsLength, bind_assoc]
    rfl

/-! ## Agreement -/

/-- The check of the messages fails alike for all checks of lists. -/
theorem checkDistinct_agrees (check check' : ListCheck) (keys messages : List (Value P₁ P₂)) :
    Agree Eq (checkDistinct check keys messages) (checkDistinct check' keys messages) := by
  unfold checkDistinct
  split
  · exact .error rfl
  · split
    · exact .error rfl
    · exact .ok rfl

theorem checkSignatures_agrees (check check' : ListCheck) (keys signatures : List (Value P₁ P₂)) :
    Agree Eq (checkSignatures check keys signatures) (checkSignatures check' keys signatures) := by
  unfold checkSignatures
  split
  · exact .error rfl
  · exact .ok rfl

/-- For signatures that have one pairing with the generator, the checks of an aggregate signature agree. -/
theorem shardedVerifyPairs_agrees {w : Shard.Workers} (hw : w.limit.Whole)
    (keys messages : List (Value P₁ P₂)) {signature signature' : Value P₁ P₂}
    (hs : Agree (fun s s' => S.pair s S.generatorNeg = S.pair s' S.generatorNeg)
      (S.coerce .signature signature false) (S.coerce .signature signature' false)) :
    Agree Eq (S.shardedVerifyPairs w keys signature messages)
      (S.verifyPairs keys signature' messages) := by
  by_cases hlength : keys.length = messages.length
  · rw [S.shardedVerifyPairs_eq hw hlength, verifyPairs_eq]
    refine (checkDistinct_agrees _ _ keys messages).bind fun _ _ _ => ?_
    refine hs.bind fun s s' hpair => ?_
    apply Agree.bind_left
    intro points _
    have hsame : S.checkPoints points messages s = S.checkPoints points messages s' := by
      rw [checkPoints, checkPoints, hpair]
    rw [hsame]
    exact Agree.refl (fun _ => rfl) _
  · -- both refuse the lengths
    have hfails : ∀ check, checkDistinct check keys messages =
        .error (.lengthsDiffer check keys.length .messages messages.length) := fun check =>
      if_pos hlength
    rw [shardedVerifyPairs, verifyPairs, hfails, hfails]
    exact .error rfl

/-- The check of an aggregate signature and the one in shards agree. -/
theorem shardedVerifyDistinctAggregated_agrees {w : Shard.Workers} (hw : w.limit.Whole)
    (keys signature messages : Value P₁ P₂) :
    Agree Eq (S.shardedVerifyDistinctAggregated w keys signature messages)
      (S.verifyDistinctAggregated keys signature messages) := by
  apply Agree.bind_left
  intro ks _
  apply Agree.bind_left
  intro ms _
  apply S.shardedVerifyPairs_agrees hw
  apply Agree.refl
  intro s
  rfl

/-- The check of one signature for each key and the one in shards agree, where signatures that stand for one
    element have one pairing with the generator. -/
theorem shardedVerifyDistinct_agrees_of_pair {A : Type} [AddCommGroup A]
    (I : (S.group .signature).Interpretation .g2 A)
    (hpair : ∀ {s s'}, I.Coincide s s' → S.pair s S.generatorNeg = S.pair s' S.generatorNeg)
    {w : Shard.Workers} (hw : w.limit.Whole) {signatures : List (Value P₁ P₂)}
    (hsignatures : ∀ s, .element (.signature s) ∈ signatures → I.Valid s)
    (keys messages : Value P₁ P₂) :
    Agree Eq (S.shardedVerifyDistinct w keys (.list signatures) messages)
      (S.verifyDistinct keys (.list signatures) messages) := by
  apply Agree.bind_left
  intro ks _
  apply Agree.bind_left
  intro ss hss
  obtain rfl : signatures = ss := Except.ok.inj hss
  apply Agree.bind_left
  intro ms _
  -- from here on the two differ: in the names that their failures give, in the sum, and in the product
  refine (checkDistinct_agrees _ _ ks ms).bind fun _ _ _ => ?_
  refine (checkSignatures_agrees _ _ ks signatures).bind fun _ _ _ => ?_
  refine (aggregateShards_agrees (f := .signature) I hsignatures hw).bind fun s s' hs => ?_
  apply S.shardedVerifyPairs_agrees hw
  rw [coerce_signature, coerce_signature]
  exact .ok (hpair hs)

end

end Suite

/-! ## The suite that runs -/

/-- For all keys and messages, in whatever form, and every limit of workers that is a whole number or not
    set: the check of an aggregate signature and the one in shards give the same answer or fail with
    failures of one category, and so do the checks of one signature for each key, if the signatures that
    are elements already are members of the subgroup. -/
theorem shardedVerifyDistinct_agrees {w : Shard.Workers} (hw : w.limit.Whole)
    (keys messages : Value (Point Fq) (Point Fq2)) :
    (∀ signature,
      Agree Eq (bls12381.shardedVerifyDistinctAggregated w keys signature messages)
        (bls12381.verifyDistinctAggregated keys signature messages)) ∧
    ∀ signatures : List (Value (Point Fq) (Point Fq2)),
      (∀ s, .element (.signature s) ∈ signatures → coding₂.Member s) →
      Agree Eq (bls12381.shardedVerifyDistinct w keys (.list signatures) messages)
        (bls12381.verifyDistinct keys (.list signatures) messages) := by
  constructor
  · intro signature
    exact bls12381.shardedVerifyDistinctAggregated_agrees hw keys signature messages
  -- sums over shards are other triples for the same element, which the pairing does not tell apart
  · intro signatures hsignatures
    rw [bls12381_eq_suite]
    let B : Backend Fq12 := ⟨ToCurve.hash, Pairing.pair, Pairing.finalExponentiation⟩
    refine B.suite.shardedVerifyDistinct_agrees_of_pair laws₂.interpretation ?_ hw ?_ keys messages
    · intro s s' h
      exact Pairing.pair_eq_of_normal_eq h.left.1 h.right.1 (laws₂.normal_eq_of_coincide h) _
    · intro s hs
      exact laws₂.member_iff_valid.mp (hsignatures s hs)

/-- Two opposite keys with a message each. -/
def twoKeys : Value (Point Fq) (Point Fq2) := .list (elements .key [generator, generator.neg])

/-- Their messages. -/
def twoMessages : Value (Point Fq) (Point Fq2) := .list [.ofBytes [97], .ofBytes [98]]

/-- A signature for each of them: an element, and a wire value that encodes none. -/
def twoSignatures : List (Value (Point Fq) (Point Fq2)) :=
  [.element (.signature generator₂), .wire (Wire.zero .signature .affine)]

/-- They are checked by two workers as by none. -/
theorem shardedVerifyDistinct_agrees_twoKeys :
    Shard.Limit.Whole (.number (.whole 2)) ∧
      (∀ s, .element (.signature s) ∈ twoSignatures → coding₂.Member s) ∧
      Agree Eq
        (bls12381.shardedVerifyDistinctAggregated ⟨.number (.whole 2), 4⟩ twoKeys
          (.element (.signature generator₂)) twoMessages)
        (bls12381.verifyDistinctAggregated twoKeys (.element (.signature generator₂)) twoMessages) ∧
      Agree Eq
        (bls12381.shardedVerifyDistinct ⟨.number (.whole 2), 4⟩ twoKeys (.list twoSignatures)
          twoMessages)
        (bls12381.verifyDistinct twoKeys (.list twoSignatures) twoMessages) := by
  have hw : Shard.Limit.Whole (.number (.whole 2)) := .inr ⟨2, rfl⟩
  have hsignatures : ∀ s, .element (.signature s) ∈ twoSignatures → coding₂.Member s := by
    intro s hs
    obtain rfl : s = generator₂ := by simpa [twoSignatures] using hs
    exact member_generator₂
  obtain ⟨htotal, heach⟩ :=
    shardedVerifyDistinct_agrees (w := ⟨.number (.whole 2), 4⟩) hw twoKeys twoMessages
  exact ⟨hw, hsignatures, htotal _, heach twoSignatures hsignatures⟩

end AggSig
