/-
  Identity keys.

  A value *is an identity key* if it is taken as the identity of the first group where that is allowed
  (`Suite.IsIdentityKey`).  On the wire it is refused where it is not.  As an element it is taken as what
  it is (`Backend.coerce_key_spec`), and the checks have to look for it: for one key before the pairing
  equation, for many keys among all of them.

  The checks of a sum of keys look at the sum only.  An identity among the keys changes nothing there
  (`Backend.coerceAll_withoutIdentityElements`, `Backend.totalBy_finite_bind_eq`), so that such a check can
  hold with an identity key, and answers as it does without (`identityKey_refused_unless_added`).  It holds
  for the identity, the generator and what the secret key one signs (`identityKey_accepted_generator`).
-/
import AggSig.Proofs.Pairing.Opposite
import AggSig.Proofs.Verify.Representation

namespace AggSig

/-- What is read as zero can be left out of a sum. -/
theorem GroupLaw.Reading.sum_filter_isIdentity {P : Type} {G : GroupLaw P} {A : Type}
    [AddCommGroup A] (R : Reading G A) {ps : List P} (hps : ∀ p ∈ ps, R.Valid p) :
    ((ps.filter fun p => !G.isIdentity p).map R.read).sum = (ps.map R.read).sum := by
  induction ps with
  | nil => rfl
  | cons p rest ih =>
    obtain ⟨hp, hrest⟩ := List.forall_mem_cons.mp hps
    rw [List.map_cons, List.sum_cons, ← ih hrest]
    cases hidentity : G.isIdentity p with
    | true =>
      rw [List.filter_cons_of_neg (by simp [hidentity]), (R.isIdentity_iff hp).mp hidentity, zero_add]
    | false =>
      rw [List.filter_cons_of_pos (by simp [hidentity]), List.map_cons, List.sum_cons]

namespace Suite

variable {P₁ P₂ T : Type}

/-! ## Values that are the identity -/

section

variable (S : Suite P₁ P₂ T)

/-- The value is taken as the identity of the first group, if that is allowed. -/
def IsIdentityKey (v : Value P₁ P₂) : Prop :=
  ∃ p, S.coerce .key v true = .ok p ∧ S.group₁.isIdentity p = true

/-- Whether the value is an identity key that is handed in as an element. -/
def isIdentityElement : Value P₁ P₂ → Bool
  | .element (.key p) => S.group₁.isIdentity p
  | _ => false

/-- The members of a list of keys that are no identity elements. -/
def withoutIdentityElements (keys : List (Value P₁ P₂)) : List (Value P₁ P₂) :=
  keys.filter fun v => !S.isIdentityElement v

/-- The points of a list that are not the identity. -/
def finitePoints (points : List P₁) : List P₁ := points.filter fun p => !S.group₁.isIdentity p

/-- The check with the identity elements left out of the keys, if it is one of their sum. -/
def withoutIdentity : Check P₁ P₂ → Check P₁ P₂
  | .fastAggregate keys message signature =>
    .fastAggregate (.list (S.withoutIdentityElements (S.membersOf keys))) message signature
  | .aggregate plan keys signatures message =>
    .aggregate plan (.list (S.withoutIdentityElements (S.membersOf keys))) signatures message
  | c => c

/-- An argument that has a member has members. -/
theorem items_of_mem_membersOf {v w : Value P₁ P₂} (h : w ∈ S.membersOf v) :
    S.items v = .ok (S.membersOf v) := by
  rw [membersOf] at h ⊢
  cases hitems : S.items v with
  | error failure =>
    rw [hitems] at h
    cases h
  | ok members => rfl

end

/-! ## Keys that a check holds for -/

section

variable [One T] [Mul T] [DecidableEq T] {S : Suite P₁ P₂ T}

/-- What passes the innermost check has a key that is not the identity. -/
theorem isIdentity_of_coreVerify {key : P₁} {h s : P₂} (hok : S.coreVerify key h s = .ok true) :
    S.group₁.isIdentity key = false := by
  rw [coreVerify] at hok
  exact eq_false_of_guarded hok

/-- So has what passes the check of a signature. -/
theorem isIdentity_of_verifySignature {key : P₁} {signature message : Value P₁ P₂}
    (hok : S.verifySignature key signature message = .ok true) :
    S.group₁.isIdentity key = false := by
  obtain ⟨s, -, hok⟩ := bind_eq_ok.mp hok
  obtain ⟨h, -, hok⟩ := bind_eq_ok.mp hok
  exact isIdentity_of_coreVerify hok

/-- So has what passes the check of a proof of possession. -/
theorem isIdentity_of_verifyPossession {key : P₁} {proof : Value P₁ P₂}
    (hok : S.verifyPossession key proof = .ok true) : S.group₁.isIdentity key = false := by
  obtain ⟨p, -, hok⟩ := bind_eq_ok.mp hok
  exact eq_false_of_guarded hok

/-- No key that passes the check of distinct messages is the identity. -/
theorem any_isIdentity_of_checkPoints {points : List P₁} {messages : List (Value P₁ P₂)} {s : P₂}
    (hok : S.checkPoints points messages s = .ok true) : points.any S.group₁.isIdentity = false := by
  rw [checkPoints] at hok
  exact eq_false_of_guarded hok

/-- Nor is one that passes the batch. -/
theorem any_isIdentity_of_batchVerifyLists {keys proofs : List (Value P₁ P₂)} {source : RandomSource}
    (hok : (S.batchVerifyLists keys proofs source).1 = .ok true) :
    ∃ points, S.coerceAll .key keys = .ok points ∧ points.any S.group₁.isIdentity = false := by
  rw [batchVerifyLists] at hok
  cases hmembers : S.batchMembers keys proofs with
  | error failure =>
    rw [hmembers] at hok
    cases hok
  | ok members =>
    obtain ⟨ks, ps⟩ := members
    simp only [hmembers] at hok
    have hks : S.coerceAll .key keys = .ok ks := by
      rw [batchMembers] at hmembers
      split at hmembers
      · cases hmembers
      · split at hmembers
        · cases hmembers
        · obtain ⟨ks', hks', hmembers⟩ := bind_eq_ok.mp hmembers
          obtain ⟨ps', -, hmembers⟩ := bind_eq_ok.mp hmembers
          cases hmembers
          exact hks'
    refine ⟨ks, hks, ?_⟩
    -- the identity is looked for before anything is drawn
    split at hok
    · cases hok
    · next hidentity => exact eq_false_of_ne_true hidentity

end

end Suite

namespace Backend

variable {T : Type} {B : Backend T}

/-- A wire value of the identity is refused where the identity is not allowed. -/
theorem decodeElement_spec {data : Bytes} {p : Point Fq}
    (h : B.suite.decodeElement .key data false = .ok p) :
    B.suite.decodeElement .key data true = .ok p ∧ B.suite.group₁.isIdentity p = false := by
  -- without leave for the identity, the decoder takes what it takes with leave, but for the identity
  have hdecode : ∀ form, coding₁.group.decode form data false = .ok p →
      coding₁.group.decode form data true = .ok p ∧ p.isInfinity = false := by
    intro form hp
    obtain ⟨hdata, hnormal, hmember, hfinite⟩ := (laws₁.exact form data false p).mp hp
    refine ⟨(laws₁.exact form data true p).mpr ⟨hdata, hnormal, hmember, fun _ => rfl⟩, ?_⟩
    exact eq_false_of_ne_true fun hinfinite => nomatch hfinite hinfinite
  rw [Suite.decodeElement] at h ⊢
  split at h
  · next hwidth =>
    rw [if_pos hwidth]
    exact hdecode .affine h
  · next hwidth =>
    rw [if_neg hwidth]
    split at h
    · next hwidth' =>
      rw [if_pos hwidth']
      exact hdecode .compressed h
    · cases h

/-- What is taken as a key is the identity only as an element. -/
theorem coerce_key_spec {v : Value (Point Fq) (Point Fq2)} {p : Point Fq}
    (h : B.suite.coerce .key v false = .ok p) :
    B.suite.coerce .key v true = .ok p ∧
      B.suite.group₁.isIdentity p = B.suite.isIdentityElement v := by
  cases v with
  | element e =>
    cases hpoint : e.as? .key with
    | none =>
      rw [Suite.coerce, hpoint] at h
      cases h
    | some r =>
      -- an element is taken as it is, whether the identity is allowed or not
      obtain rfl := Element.eq_of_as? hpoint
      rw [Suite.coerce_of] at h ⊢
      cases h
      exact ⟨rfl, rfl⟩
  | wire w =>
    rw [Suite.coerce] at h ⊢
    split at h
    · next hfamily =>
      rw [if_pos hfamily]
      exact decodeElement_spec h
    · cases h
  | _ => cases h

/-- What an identity key is taken as, if it is taken at all. -/
theorem isIdentity_of_isIdentityKey {v : Value (Point Fq) (Point Fq2)} {p : Point Fq}
    (hv : B.suite.IsIdentityKey v) (h : B.suite.coerce .key v false = .ok p) :
    B.suite.group₁.isIdentity p = true := by
  obtain ⟨r, hr, hidentity⟩ := hv
  obtain rfl : p = r := Except.ok.inj ((coerce_key_spec h).1.symm.trans hr)
  exact hidentity

/-- Keys among which one is an identity key give points among which one is the identity. -/
theorem any_isIdentity_of_isIdentityKey {keys : List (Value (Point Fq) (Point Fq2))}
    {points : List (Point Fq)} (h : B.suite.coerceAll .key keys = .ok points)
    {v : Value (Point Fq) (Point Fq2)} (hmem : v ∈ keys) (hv : B.suite.IsIdentityKey v) :
    points.any B.suite.group₁.isIdentity = true := by
  obtain ⟨p, hp, hcoerce⟩ := exists_mem_of_mapM h hmem
  exact List.any_eq_true.mpr ⟨p, hp, isIdentity_of_isIdentityKey hv hcoerce⟩

/-! ## Sums without the identity -/

/-- Leaving out the identity leaves out what it is taken as, and nothing else. -/
theorem coerceAll_withoutIdentityElements (keys : List (Value (Point Fq) (Point Fq2))) :
    B.suite.coerceAll .key (B.suite.withoutIdentityElements keys) =
      B.suite.finitePoints <$> B.suite.coerceAll .key keys := by
  induction keys with
  | nil => rfl
  | cons v rest ih =>
    rw [Suite.coerceAll_cons, Suite.withoutIdentityElements]
    rw [Suite.withoutIdentityElements] at ih
    cases hcoerce : B.suite.coerce .key v false with
    | error failure =>
      -- elements of the family are never refused, so this value stays and is refused on either side
      have hother : B.suite.isIdentityElement v = false := by
        cases v with
        | element e =>
          cases e with
          | key p => cases hcoerce
          | _ => rfl
        | _ => rfl
      rw [List.filter_cons_of_pos (by simp [hother]), Suite.coerceAll_cons, hcoerce]
      rfl
    | ok p =>
      have hidentity := (coerce_key_spec hcoerce).2
      show _ = B.suite.finitePoints <$> (p :: ·) <$> B.suite.coerceAll .key rest
      rw [Functor.map_map]
      cases hv : B.suite.isIdentityElement v with
      | true =>
        have hdrop : ∀ ps, B.suite.finitePoints (p :: ps) = B.suite.finitePoints ps := fun ps =>
          List.filter_cons_of_neg (by simp [hidentity, hv])
        rw [List.filter_cons_of_neg (by simp [hv]), ih]
        simp only [hdrop]
      | false =>
        have hkeep : ∀ ps, B.suite.finitePoints (p :: ps) = p :: B.suite.finitePoints ps := fun ps =>
          List.filter_cons_of_pos (by simp [hidentity, hv])
        rw [List.filter_cons_of_pos (by simp [hv]), Suite.coerceAll_cons, hcoerce, ih]
        simp only [hkeep]
        exact Functor.map_map B.suite.finitePoints (p :: ·) (B.suite.coerceAll .key rest)

/-- Points and those of them that are not the identity have the same sum, if there are any. -/
theorem totalBy_finite_bind_eq {β : Type} (plan : Plan) {points : List (Point Fq)}
    (hpoints : ∀ p ∈ points, coding₁.Member p)
    (hfinite : ∃ p ∈ points, B.suite.group₁.isIdentity p = false)
    {next : Point Fq → Except Failure β}
    (hnext : ∀ t t', reading₁.Coincide t t' → next t = next t') :
    B.suite.totalBy plan .key (B.suite.finitePoints points) >>= next =
      B.suite.totalBy plan .key points >>= next := by
  obtain ⟨p, hp, hidentity⟩ := hfinite
  have hkept : p ∈ B.suite.finitePoints points :=
    List.mem_filter.mpr ⟨hp, by rw [hidentity]; rfl⟩
  obtain ⟨t, ht, htvalid, htread⟩ := B.suite.totalBy_spec plan (f := .key) reading₁
    (List.ne_nil_of_mem hkept) fun r hr => hpoints r (List.mem_of_mem_filter hr)
  obtain ⟨t', ht', htvalid', htread'⟩ := B.suite.totalBy_spec plan (f := .key) reading₁
    (List.ne_nil_of_mem hp) hpoints
  -- the two sums are of the same elements, but for zeros
  rw [ht, ht']
  refine hnext t t' ⟨htvalid, htvalid', ?_⟩
  rw [htread, htread']
  exact reading₁.sum_filter_isIdentity hpoints

/-- A sum of identities is the identity. -/
theorem exists_finite_of_totalBy {plan : Plan} {points : List (Point Fq)} {t : Point Fq}
    (ht : B.suite.totalBy plan .key points = .ok t) (hfinite : B.suite.group₁.isIdentity t = false) :
    ∃ p ∈ points, B.suite.group₁.isIdentity p = false := by
  by_contra hnone
  push Not at hnone
  have hidentity : ∀ p ∈ points, B.suite.group₁.isIdentity p = true := fun p hp =>
    eq_true_of_ne_false (hnone p hp)
  -- triples at infinity are members, whatever their other coordinates, so that their sum can be read
  have hmember : ∀ p ∈ points, coding₁.Member p := fun p hp =>
    laws₁.member_of_infinite (Point.isInfinity_iff.mp (hidentity p hp))
  have hsome : points ≠ [] := by
    rintro rfl
    cases plan <;> cases ht
  obtain ⟨t', ht', hvalid, hread⟩ := B.suite.totalBy_spec plan (f := .key) reading₁ hsome hmember
  obtain rfl : t = t' := Except.ok.inj (ht.symm.trans ht')
  have hzero : reading₁.read t = 0 := by
    rw [hread]
    refine List.sum_eq_zero fun a ha => ?_
    obtain ⟨p, hp, rfl⟩ := List.mem_map.mp ha
    exact (reading₁.isIdentity_iff (hmember p hp)).mp (hidentity p hp)
  have htrue : B.suite.group₁.isIdentity t = true := (reading₁.isIdentity_iff hvalid).mpr hzero
  rw [hfinite] at htrue
  cases htrue

/-- A sum of keys is one of what is left without the identity elements, if anything is. -/
theorem aggregateMembersBy_withoutIdentityElements {β : Type} (plan : Plan)
    {keys : List (Value (Point Fq) (Point Fq2))}
    (hmembers : ∀ p, .element (.key p) ∈ keys → coding₁.Member p)
    (hother : ∃ v ∈ keys, B.suite.isIdentityElement v = false)
    {next : Point Fq → Except Failure β}
    (hnext : ∀ t t', reading₁.Coincide t t' → next t = next t') :
    B.suite.aggregateMembersBy plan .key (B.suite.withoutIdentityElements keys) >>= next =
      B.suite.aggregateMembersBy plan .key keys >>= next := by
  rw [Suite.aggregateMembersBy_eq, Suite.aggregateMembersBy_eq, coerceAll_withoutIdentityElements]
  cases hpoints : B.suite.coerceAll .key keys with
  | error failure => rfl
  | ok points =>
    obtain ⟨v, hv, hfinite⟩ := hother
    obtain ⟨p, hp, hcoerce⟩ := exists_mem_of_mapM hpoints hv
    have hvalid : ∀ p ∈ points, coding₁.Member p := Suite.valid_of_coerceAll (f := .key)
      (B.interpretation .key) hmembers hpoints
    exact totalBy_finite_bind_eq plan hvalid ⟨p, hp, (coerce_key_spec hcoerce).2.trans hfinite⟩ hnext

/-! ## Checks that hold -/

section

variable [Monoid T] [DecidableEq T] {c : Check (Point Fq) (Point Fq2)} {source : RandomSource}
  {keys : List (Value (Point Fq) (Point Fq2))} {v : Value (Point Fq) (Point Fq2)}

/-- A check of keys and their messages does not hold with an identity key. -/
theorem not_isIdentityKey_of_verifyPairsBy {plan : Plan} {signature : Value (Point Fq) (Point Fq2)}
    {messages : List (Value (Point Fq) (Point Fq2))}
    (hok : B.suite.verifyPairsBy plan keys signature messages = .ok true) (hmem : v ∈ keys) :
    ¬ B.suite.IsIdentityKey v := by
  intro hv
  rw [Suite.verifyPairsBy_eq] at hok
  obtain ⟨-, -, hok⟩ := bind_eq_ok.mp hok
  obtain ⟨s, -, hok⟩ := bind_eq_ok.mp hok
  obtain ⟨points, hpoints, hok⟩ := bind_eq_ok.mp hok
  have hidentity := any_isIdentity_of_isIdentityKey hpoints hmem hv
  rw [Suite.any_isIdentity_of_checkPoints hok] at hidentity
  cases hidentity

/-- No check holds with an identity key but those of a sum of keys. -/
theorem addsKeys_of_check (hok : (B.suite.check c source).1 = .ok true) (hmem : v ∈ B.suite.keysOf c)
    (hv : B.suite.IsIdentityKey v) : c.addsKeys = true := by
  have hone : ∀ {key : Point Fq}, B.suite.coerce .key v false = .ok key →
      ¬ B.suite.group₁.isIdentity key = false := by
    intro key hkey hfinite
    rw [isIdentity_of_isIdentityKey hv hkey] at hfinite
    cases hfinite
  have hlist : ∀ {value : Value (Point Fq) (Point Fq2)} {ks}, v ∈ B.suite.membersOf value →
      B.suite.items value = .ok ks → v ∈ ks := fun hmem hks => B.suite.membersOf_eq hks ▸ hmem
  cases c with
  -- one key: what it is taken as is looked at before the pairing equation
  | signature signature key message =>
    obtain rfl := List.mem_singleton.mp hmem
    obtain ⟨s, -, hok⟩ := bind_eq_ok.mp hok
    obtain ⟨k, hk, hok⟩ := bind_eq_ok.mp hok
    exact absurd (Suite.isIdentity_of_verifySignature hok) (hone hk)
  | key key signature message =>
    obtain rfl := List.mem_singleton.mp hmem
    obtain ⟨k, hk, hok⟩ := bind_eq_ok.mp hok
    exact absurd (Suite.isIdentity_of_verifySignature hok) (hone hk)
  | proof proof key =>
    obtain rfl := List.mem_singleton.mp hmem
    obtain ⟨p, -, hok⟩ := bind_eq_ok.mp hok
    obtain ⟨k, hk, hok⟩ := bind_eq_ok.mp hok
    exact absurd (Suite.isIdentity_of_verifyPossession hok) (hone hk)
  | possession key proof =>
    obtain rfl := List.mem_singleton.mp hmem
    obtain ⟨k, hk, hok⟩ := bind_eq_ok.mp hok
    exact absurd (Suite.isIdentity_of_verifyPossession hok) (hone hk)
  | fastAggregate keys message signature => rfl
  | aggregate plan keys signatures message => rfl
  -- many keys, each with what it signed: all that they are taken as is looked at
  | failClosed keys messages signature =>
    obtain ⟨ks, hks, hok⟩ := bind_eq_ok.mp hok
    obtain ⟨ms, -, hok⟩ := bind_eq_ok.mp hok
    have hpairs : B.suite.verifyPairsBy .sequential ks signature ms = .ok true := by
      rw [Suite.verifyPairsBy]
      split at hok
      · next answer hanswer => rw [hanswer, Except.ok.inj hok]
      · split at hok <;> cases hok
    exact absurd hv (not_isIdentityKey_of_verifyPairsBy hpairs (hlist hmem hks))
  | distinctAggregated plan keys signature messages =>
    have hok : B.suite.verifyDistinctAggregatedBy plan keys signature messages = .ok true := hok
    rw [Suite.verifyDistinctAggregatedBy_eq] at hok
    obtain ⟨ks, hks, hok⟩ := bind_eq_ok.mp hok
    obtain ⟨ms, -, hok⟩ := bind_eq_ok.mp hok
    exact absurd hv (not_isIdentityKey_of_verifyPairsBy hok (hlist hmem hks))
  | distinct plan keys signatures messages =>
    have hok : B.suite.verifyDistinctBy plan keys signatures messages = .ok true := hok
    rw [Suite.verifyDistinctBy_eq] at hok
    obtain ⟨ks, hks, hok⟩ := bind_eq_ok.mp hok
    obtain ⟨ss, -, hok⟩ := bind_eq_ok.mp hok
    obtain ⟨ms, -, hok⟩ := bind_eq_ok.mp hok
    obtain ⟨-, -, hok⟩ := bind_eq_ok.mp hok
    obtain ⟨-, -, hok⟩ := bind_eq_ok.mp hok
    obtain ⟨s, -, hok⟩ := bind_eq_ok.mp hok
    exact absurd hv (not_isIdentityKey_of_verifyPairsBy hok (hlist hmem hks))
  | batch keys proofs =>
    have hok : (B.suite.batchVerify keys proofs source).1 = .ok true := hok
    rw [Suite.batchVerify] at hok
    split at hok
    · next ks ps hks hps =>
      obtain ⟨points, hpoints, hfinite⟩ := Suite.any_isIdentity_of_batchVerifyLists hok
      have hidentity := any_isIdentity_of_isIdentityKey hpoints (hlist hmem hks) hv
      rw [hfinite] at hidentity
      cases hidentity
    · cases hok
    · cases hok

/-- A check of a sum of keys that holds has taken every key as a point, and their sum is not the identity. -/
theorem exists_total_of_check (hadds : c.addsKeys = true)
    (hok : (B.suite.check c source).1 = .ok true) :
    ∃ plan points t, B.suite.coerceAll .key (B.suite.keysOf c) = .ok points ∧
      B.suite.totalBy plan .key points = .ok t ∧ B.suite.group₁.isIdentity t = false := by
  have htotal : ∀ plan {value : Value (Point Fq) (Point Fq2)} {ks t},
      B.suite.items value = .ok ks → B.suite.aggregateMembersBy plan .key ks = .ok t →
      ∃ points, B.suite.coerceAll .key (B.suite.membersOf value) = .ok points ∧
        B.suite.totalBy plan .key points = .ok t := by
    intro plan value ks t hks ht
    rw [B.suite.membersOf_eq hks]
    exact bind_eq_ok.mp ((B.suite.aggregateMembersBy_eq plan .key ks).symm.trans ht)
  -- only two checks add their keys, and both end in the check of one signature
  cases c with
  | fastAggregate keys message signature =>
    obtain ⟨ks, hks, hok⟩ := bind_eq_ok.mp hok
    split at hok
    · cases hok
    · obtain ⟨s, -, hok⟩ := bind_eq_ok.mp hok
      obtain ⟨t, ht, hok⟩ := bind_eq_ok.mp hok
      obtain ⟨points, hpoints, htotal⟩ := htotal .sequential hks ht
      exact ⟨.sequential, points, t, hpoints, htotal, Suite.isIdentity_of_verifySignature hok⟩
  | aggregate plan keys signatures message =>
    have hok : B.suite.verifyAggregateBy plan keys signatures message = .ok true := hok
    rw [Suite.verifyAggregateBy_eq, Suite.aggregateBy_eq] at hok
    obtain ⟨t, ht, hok⟩ := bind_eq_ok.mp hok
    obtain ⟨s, -, hok⟩ := bind_eq_ok.mp hok
    obtain ⟨ks, hks, ht⟩ := bind_eq_ok.mp ht
    obtain ⟨points, hpoints, htotal⟩ := htotal plan hks ht
    exact ⟨plan, points, t, hpoints, htotal, Suite.isIdentity_of_verifySignature hok⟩
  | _ => cases hadds

/-- Leaving out the identity elements changes nothing, unless no key is left. -/
theorem Blind.check_withoutIdentity (hB : B.Blind)
    (hmembers : ∀ p, .element (.key p) ∈ B.suite.keysOf c → coding₁.Member p)
    (hother : ∃ v ∈ B.suite.keysOf c, B.suite.isIdentityElement v = false) :
    B.suite.check (B.suite.withoutIdentity c) = B.suite.check c := by
  funext source
  -- only two checks add their keys, and the sum is the same element without the identities
  cases c with
  | fastAggregate keys message signature =>
    rw [Suite.keysOf] at hmembers hother
    obtain ⟨v, hv, hfinite⟩ := hother
    have hleft : v ∈ B.suite.withoutIdentityElements (B.suite.membersOf keys) :=
      List.mem_filter.mpr ⟨hv, by rw [hfinite]; rfl⟩
    refine congrArg (·, source) ?_
    rw [Suite.fastAggregateVerify_eq, Suite.fastAggregateVerify_eq, B.suite.items_of_mem_membersOf hv]
    show (if _ then _ else _) = (if _ then _ else _)
    rw [List.isEmpty_eq_false_iff_exists_mem.mpr ⟨v, hv⟩,
      List.isEmpty_eq_false_iff_exists_mem.mpr ⟨v, hleft⟩]
    show _ >>= _ = _ >>= _
    congr 1
    funext s
    exact aggregateMembersBy_withoutIdentityElements .sequential hmembers ⟨v, hv, hfinite⟩
      fun t t' h => hB.verifySignature_congr h rfl message
  | aggregate plan keys signatures message =>
    rw [Suite.keysOf] at hmembers hother
    obtain ⟨v, hv, hfinite⟩ := hother
    refine congrArg (·, source) ?_
    rw [Suite.verifyAggregateBy_eq, Suite.verifyAggregateBy_eq, Suite.aggregateBy_eq,
      B.suite.aggregateBy_eq plan .key keys, B.suite.items_of_mem_membersOf hv]
    refine aggregateMembersBy_withoutIdentityElements plan hmembers ⟨v, hv, hfinite⟩ fun t t' h => ?_
    congr 1
    funext s
    exact hB.verifySignature_congr h rfl message
  | _ => rfl

end

end Backend

/-! ## The suite that runs -/

/-- A check with an identity key does not hold, unless it is one of a sum of keys, the identity is handed in
    as an element, and some other key is not the identity.  In such a check, identity elements among the
    keys make no difference as long as there are other keys. -/
theorem identityKey_refused_unless_added (c : Check (Point Fq) (Point Fq2)) (source : RandomSource)
    (hidentity : ∃ v ∈ bls12381.keysOf c, bls12381.IsIdentityKey v) :
    ((bls12381.check c source).1 = .ok true →
      c.addsKeys = true ∧
      (∀ w ∈ bls12381.keysOf c, bls12381.IsIdentityKey w → bls12381.isIdentityElement w = true) ∧
      ∃ w ∈ bls12381.keysOf c, ¬ bls12381.IsIdentityKey w) ∧
    ((∀ p, .element (.key p) ∈ bls12381.keysOf c → coding₁.Member p) →
      (∃ w ∈ bls12381.keysOf c, bls12381.isIdentityElement w = false) →
      bls12381.check (bls12381.withoutIdentity c) source = bls12381.check c source) := by
  rw [bls12381_eq_suite] at hidentity ⊢
  refine ⟨?_, fun hmembers hother => ?_⟩
  · intro hok
    obtain ⟨v, hmem, hv⟩ := hidentity
    have hadds := Backend.addsKeys_of_check hok hmem hv
    obtain ⟨plan, points, t, hpoints, ht, hfinite⟩ := Backend.exists_total_of_check hadds hok
    refine ⟨hadds, ?_, ?_⟩
    · intro w hw hidentity
      obtain ⟨p, -, hcoerce⟩ := exists_mem_of_mapM hpoints hw
      rw [← (Backend.coerce_key_spec hcoerce).2]
      exact Backend.isIdentity_of_isIdentityKey hidentity hcoerce
    · -- a sum that is not the identity has a term that is not
      obtain ⟨p, hp, hother⟩ := Backend.exists_finite_of_totalBy ht hfinite
      obtain ⟨w, hw, hcoerce⟩ := exists_of_mem_mapM hpoints hp
      refine ⟨w, hw, fun hidentity => ?_⟩
      rw [Backend.isIdentity_of_isIdentityKey hidentity hcoerce] at hother
      cases hother
  · exact congrFun (blind_running.check_withoutIdentity hmembers hother) source

/-- For the sum of the identity and a key, a signature is asked whether it is one by the key. -/
theorem fastAggregateVerify_identity {k : Point Fq} (hk : k.z ≠ 0) (s : Point Fq2)
    (m : Value (Point Fq) (Point Fq2)) :
    bls12381.fastAggregateVerify (.list (elements .key [Point.infinity, k])) m
        (.element (.signature s)) =
      bls12381.verifySignature k (.element (.signature s)) m := by
  have hsum : bls12381.aggregateMembersBy .sequential .key (elements .key [Point.infinity, k]) =
      .ok k := by
    -- the identity adds nothing, so that the sum is the other key as it was handed in
    have hadd : (Point.infinity : Point Fq).add k = k := Point.add_of_infinite_left rfl hk
    rw [Suite.aggregateMembersBy_eq, Suite.coerceAll_elements]
    exact congrArg Except.ok hadd
  rw [Suite.fastAggregateVerify_eq]
  show (bls12381.coerce .signature (.element (.signature s)) false >>= fun s =>
    bls12381.aggregateMembersBy .sequential .key (elements .key [Point.infinity, k]) >>= fun k =>
      bls12381.verifySignature k (.element (.signature s)) m) = _
  rw [Suite.coerce_signature, hsum]
  rfl

/-- The secret key one signs a message with the hash of it.  That is a valid signature by the generator,
    if its pairing with the generator has an inverse. -/
theorem verifySignature_generator {m : Value (Point Fq) (Point Fq2)} {h : Point Fq2}
    (hhash : bls12381.hashMessage m = .ok h) (hcurve : h.onCurve b₂ = true)
    (hfinite : h.isInfinity = false)
    (hnorm : (Pairing.miller h generator * (Pairing.miller h generator).conj).evenNorm ≠ 0) :
    bls12381.verifySignature generator (.element (.signature h)) m = .ok true := by
  -- the pairing is computed on points that are finite and on the curve
  have hpair : ∀ k : Point Fq, k.onCurve b₁ = true → k.isInfinity = false →
      bls12381.pair h k = .ok (Pairing.miller h k) := by
    intro k hk hkfinite
    show Pairing.pair h k = _
    rw [Pairing.pair, if_neg (by simp [hcurve]), if_neg (by simp [hk]),
      if_neg (by simp [hfinite, hkfinite])]
  have hgenerator := hpair generator (by decide +kernel) (by decide)
  have hneg : bls12381.pair h bls12381.generatorNeg = .ok (Pairing.miller h generator.neg) :=
    hpair generator.neg (by decide +kernel) (by decide)
  have hproduct : bls12381.pairingProduct [(h, generator)] = .ok (Pairing.miller h generator) := by
    show ((1 * ·) <$> bls12381.pair h generator >>= pure) = _
    rw [hgenerator]
    exact congrArg Except.ok (one_mul _)
  have hfinal : bls12381.finalExponentiation = Pairing.finalExponentiation := by rw [bls12381]
  -- the two factors are opposite, so that the final exponentiation takes their product to one
  have hone : bls12381.isOne (Pairing.miller h generator * Pairing.miller h generator.neg) = true := by
    rw [Suite.isOne, decide_eq_true_iff, hfinal]
    exact Pairing.finalExponentiation_opposite hnorm
  have hcore : bls12381.coreVerify generator h h = .ok true := by
    have hidentity : ¬ bls12381.group₁.isIdentity generator = true := by decide
    rw [Suite.coreVerify, if_neg hidentity, ← List.singleton_append,
      Suite.pairingCheck_append_single, hproduct, hneg, ← hone]
    rfl
  rw [Suite.verifySignature_signature, hhash]
  exact hcore

/-- The hash of the empty message: its signature by the secret key one. -/
def emptySigned : Point Fq2 := bls12381.hash .message []

/-- It is finite and on the curve, and its loop with the generator comes to a value whose norm is not zero. -/
theorem emptySigned_spec :
    emptySigned.onCurve b₂ = true ∧ emptySigned.isInfinity = false ∧
      (Pairing.miller emptySigned generator *
        (Pairing.miller emptySigned generator).conj).evenNorm ≠ 0 := by
  decide +kernel

/-- The identity, handed in as an element. -/
def identityKey : Value (Point Fq) (Point Fq2) := .element (.key Point.infinity)

/-- The check of the empty message for the identity and the generator, the key of the secret key one. -/
def identityCheck : Check (Point Fq) (Point Fq2) :=
  .fastAggregate (.list (elements .key [Point.infinity, generator])) (.ofBytes [])
    (.element (.signature emptySigned))

theorem keysOf_identityCheck :
    bls12381.keysOf identityCheck = [identityKey, .element (.key generator)] := rfl

theorem isIdentityKey_identityKey : bls12381.IsIdentityKey identityKey :=
  ⟨Point.infinity, bls12381.coerce_key _ true, by decide⟩

/-- It passes, with the identity among its keys. -/
theorem check_identityCheck (source : RandomSource) :
    (bls12381.check identityCheck source).1 = .ok true := by
  obtain ⟨hcurve, hfinite, hnorm⟩ := emptySigned_spec
  have hhash : bls12381.hashMessage (.ofBytes []) = .ok emptySigned := by
    rw [emptySigned, Suite.hashMessage]
    rfl
  have hverify := verifySignature_generator hhash hcurve hfinite hnorm
  rw [← fastAggregateVerify_identity (by decide)] at hverify
  exact hverify

/-- The check holds, although one of its keys is the identity. -/
theorem identityKey_accepted_generator :
    identityKey ∈ bls12381.keysOf identityCheck ∧ bls12381.IsIdentityKey identityKey ∧
      ∀ source, (bls12381.check identityCheck source).1 = .ok true := by
  refine ⟨?_, isIdentityKey_identityKey, check_identityCheck⟩
  rw [keysOf_identityCheck]
  exact List.mem_cons_self

/-- It is one of the sum of its keys, its identity key is an element, its other key is not the identity,
    and without the identity key it gives the same answer. -/
theorem identityKey_refused_unless_added_generator :
    (∃ v ∈ bls12381.keysOf identityCheck, bls12381.IsIdentityKey v) ∧
    (bls12381.check identityCheck ⟨[], []⟩).1 = .ok true ∧
    (identityCheck.addsKeys = true ∧
      (∀ w ∈ bls12381.keysOf identityCheck, bls12381.IsIdentityKey w →
        bls12381.isIdentityElement w = true) ∧
      ∃ w ∈ bls12381.keysOf identityCheck, ¬ bls12381.IsIdentityKey w) ∧
    (∀ p, .element (.key p) ∈ bls12381.keysOf identityCheck → coding₁.Member p) ∧
    (∃ w ∈ bls12381.keysOf identityCheck, bls12381.isIdentityElement w = false) ∧
    bls12381.check (bls12381.withoutIdentity identityCheck) ⟨[], []⟩ =
      bls12381.check identityCheck ⟨[], []⟩ := by
  have hidentity : ∃ v ∈ bls12381.keysOf identityCheck, bls12381.IsIdentityKey v := by
    rw [keysOf_identityCheck]
    exact ⟨identityKey, List.mem_cons_self, isIdentityKey_identityKey⟩
  have hmembers : ∀ p, .element (.key p) ∈ bls12381.keysOf identityCheck → coding₁.Member p := by
    intro p hp
    rw [keysOf_identityCheck, identityKey] at hp
    rcases List.mem_cons.mp hp with h | h
    · cases h
      exact laws₁.member_of_infinite rfl
    · cases List.mem_singleton.mp h
      exact member_generator
  have hother : ∃ w ∈ bls12381.keysOf identityCheck, bls12381.isIdentityElement w = false := by
    rw [keysOf_identityCheck]
    exact ⟨_, List.mem_cons_of_mem _ List.mem_cons_self, by decide⟩
  have hok := check_identityCheck ⟨[], []⟩
  obtain ⟨hrefused, hignored⟩ := identityKey_refused_unless_added identityCheck ⟨[], []⟩ hidentity
  exact ⟨hidentity, hok, hrefused hok, hmembers, hother, hignored hmembers hother⟩

end AggSig
