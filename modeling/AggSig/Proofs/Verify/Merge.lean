/-
  Keys that share a message can be added up before they are checked.

  Every key with a message of its own costs a pairing.  The logarithm of a sum of keys acts like the sum
  of their logarithms (`log_sum_nsmul`), so that adding two keys of one message up leaves the sum that a
  signature is compared with as it is (`sum_merged`).  The answer changes in one case only: keys that
  cancel each other out are refused once they are merged, and not before (`verifyItems_merged`).

  Merging all keys of one message turns the check of distinct messages into the one of the same message,
  which therefore answers alike as long as the keys do not sum up to the identity.
-/
import AggSig.Proofs.Aggregate.Sums
import AggSig.Proofs.Verify.Distinct

namespace AggSig

/-! ## Logarithms of sums -/

/-- The logarithm of a sum acts like the logarithms of both terms together. -/
theorem log_add_nsmul (b c : G₁) (a : G₂) : log (b + c) • a = log b • a + log c • a :=
  map_add (logPairing a) b c

/-- The logarithm of a sum acts like the logarithms of its terms together. -/
theorem log_sum_nsmul (bs : List G₁) (a : G₂) :
    log bs.sum • a = (bs.map fun b => log b • a).sum :=
  map_list_sum (logPairing a) bs

/-! ## Two members of a list replaced by one -/

/-- A sum over a list does not change if one member is left out and another one is replaced by what
    stands for both. -/
theorem sum_merged {α A : Type} [AddCommGroup A] (f : α → A) {items : List α} {i j : Nat}
    (hi : i < items.length) (hj : j < items.length) (hij : i ≠ j) {x : α}
    (hx : f x = f items[i] + f items[j]) :
    (((items.set i x).eraseIdx j).map f).sum = (items.map f).sum := by
  have hj' : j < (items.set i x).length := by rwa [List.length_set]
  have hother : (items.set i x)[j] = items[j] := List.getElem_set_ne hij hj'
  -- the list with the replacement, that without `j`, and the list as it was, each as a member and the rest
  have hset := (List.set_perm_cons_eraseIdx hi x).map f
  have herase := (List.getElem_cons_eraseIdx_perm hj').map f
  have hitems := (List.getElem_cons_eraseIdx_perm hi).map f
  have hsum : f items[j] + (((items.set i x).eraseIdx j).map f).sum =
      f items[i] + f items[j] + ((items.eraseIdx i).map f).sum := by
    rw [← hx, ← List.sum_cons, ← List.sum_cons, ← List.map_cons, ← List.map_cons, ← hset.sum_eq,
      ← herase.sum_eq, hother]
  have hwhole : (items.map f).sum = f items[i] + ((items.eraseIdx i).map f).sum := by
    rw [← List.sum_cons, ← List.map_cons, hitems.sum_eq]
  rw [hwhole]
  refine add_left_cancel (a := f items[j]) (hsum.trans ?_)
  rw [add_comm (f items[i]), add_assoc]

/-- What is left in the list was in it before or is the replacement. -/
theorem forall_mem_merged {α : Type} {Q : α → Prop} {items : List α} (h : ∀ y ∈ items, Q y) {x : α}
    (hx : Q x) (i j : Nat) : ∀ y ∈ (items.set i x).eraseIdx j, Q y := by
  intro y hy
  rcases List.mem_or_eq_of_mem_set (List.mem_of_mem_eraseIdx hy) with hy | rfl
  · exact h y hy
  · exact hx

/-! ## Arguments in any form -/

/-- Keys and a signature in any form are checked as the points that they are taken as. -/
theorem Suite.verifyPairs_coerced {P₁ P₂ T : Type} [One T] [Mul T] [DecidableEq T]
    (S : Suite P₁ P₂ T) {keys : List (Value P₁ P₂)} {points : List P₁} {signature : Value P₁ P₂}
    {s : P₂} (hkeys : S.coerceAll .key keys = .ok points)
    (hs : S.coerce .signature signature false = .ok s) (messages : List (Value P₁ P₂)) :
    S.verifyPairs keys signature messages =
      S.verifyPairs (elements .key points) (.element (.signature s)) messages := by
  have hlength : (elements .key points : List (Value P₁ P₂)).length = keys.length := by
    rw [length_elements]
    exact length_of_mapM_eq_ok hkeys
  rw [verifyPairs, verifyPairs, checkDistinct_congr _ hlength, hkeys, hs, coerceAll_elements,
    coerce_signature]

namespace Backend

variable {T : Type} (B : Backend T)

/-- A key in any form with the message that it signs. -/
abbrev Item : Type := Value (Point Fq) (Point Fq2) × Value (Point Fq) (Point Fq2)

/-- The point that a key in any form is taken as; for a value that is refused, the identity. -/
def keyPoint (v : Value (Point Fq) (Point Fq2)) : Point Fq :=
  match B.suite.coerce .key v false with
  | .ok p => p
  | .error _ => Point.infinity

/-- The value is a member of the first group other than the identity, or encodes one. -/
def IsKey (v : Value (Point Fq) (Point Fq2)) : Prop :=
  B.IsMember .key v ∧ B.suite.group₁.isIdentity (B.keyPoint v) = false

/-- The check of an aggregate signature for keys with a message each. -/
def verifyItems [One T] [Mul T] [DecidableEq T] (items : List Item)
    (s : Value (Point Fq) (Point Fq2)) : Except Failure Bool :=
  B.suite.verifyDistinctAggregated (.list (items.map Prod.fst)) s (.list (items.map Prod.snd))

variable {B}

theorem keyPoint_key (p : Point Fq) : B.keyPoint (.element (.key p)) = p := by
  rw [keyPoint, Suite.coerce_key]

theorem coerce_keyPoint {v : Value (Point Fq) (Point Fq2)} (h : B.IsMember .key v) :
    B.suite.coerce .key v false = .ok (B.keyPoint v) ∧ coding₁.Member (B.keyPoint v) := by
  obtain ⟨p, hp, hmember⟩ := h
  rw [keyPoint, hp]
  exact ⟨rfl, hmember⟩

theorem coerceAll_keys {keys : List (Value (Point Fq) (Point Fq2))}
    (hkeys : ∀ v ∈ keys, B.IsMember .key v) :
    B.suite.coerceAll .key keys = .ok (keys.map B.keyPoint) :=
  mapM_ok fun v hv => (coerce_keyPoint (hkeys v hv)).1

/-- A finite member is a key. -/
theorem isKey_of {p : Point Fq} (hp : coding₁.Member p)
    (hfinite : B.suite.group₁.isIdentity p = false) : B.IsKey (.element (.key p)) := by
  rw [IsKey, keyPoint_key]
  exact ⟨isMember_of (f := .key) hp, hfinite⟩

/-- A key is not read as zero. -/
theorem IsKey.read_ne_zero {v : Value (Point Fq) (Point Fq2)} (h : B.IsKey v) :
    reading₁.read (B.keyPoint v) ≠ 0 := by
  obtain ⟨hmember, hfinite⟩ := h
  rw [Ne, ← reading₁.isIdentity_iff (coerce_keyPoint hmember).2, Bool.not_eq_true]
  exact hfinite

/-- Keys aggregate to a member that stands for the sum of what they stand for. -/
theorem exists_aggregate_keys {keys : List (Value (Point Fq) (Point Fq2))} (hne : keys ≠ [])
    (hkeys : ∀ v ∈ keys, B.IsMember .key v) :
    ∃ key, B.suite.aggregate .key (.list keys) = .ok key ∧ coding₁.Member key ∧
      reading₁.read key = (keys.map fun v => reading₁.read (B.keyPoint v)).sum := by
  have hpoints : ∀ p ∈ keys.map B.keyPoint, coding₁.Member p :=
    List.forall_mem_map.mpr fun v hv => (coerce_keyPoint (hkeys v hv)).2
  have hsome : keys.map B.keyPoint ≠ [] := fun h => hne (List.map_eq_nil_iff.mp h)
  obtain ⟨key, hkey, hmember, hread⟩ := B.suite.total_spec (f := .key) reading₁ hsome hpoints
  rw [List.map_map] at hread
  refine ⟨key, ?_, hmember, hread⟩
  show B.suite.aggregateList .key keys = .ok key
  rw [Suite.aggregateList_eq, coerceAll_keys hkeys]
  exact hkey

/-- Messages with the same bytes hash to the same point. -/
theorem messagePoint_congr {m m' : Value (Point Fq) (Point Fq2)}
    (h : B.suite.bytesOf m = B.suite.bytesOf m') : B.messagePoint m = B.messagePoint m' := by
  rw [messagePoint, messagePoint, h]

/-- What a signature of a key with its message stands for. -/
noncomputable def itemRead (B : Backend T) (i : Item) : G₂ :=
  log (reading₁.read (B.keyPoint i.1)) • reading₂.read (B.messagePoint i.2)

namespace Laws

variable [One T] [Mul T] [DecidableEq T] {E : Type} [AddCommGroup E] (L : B.Laws E)
variable {s : Value (Point Fq) (Point Fq2)} {t : Point Fq2}
  (hs : B.suite.coerce .signature s false = .ok t) (ht : coding₂.Member t)

include L hs ht

/-- The check of keys with a message each: no key is the identity, and the signature is the sum of what
    they sign. -/
theorem verifyItems_eq {items : List Item} (hne : items ≠ [])
    (hkeys : ∀ i ∈ items, B.IsMember .key i.1) (hm : ∀ i ∈ items, B.IsMessage i.2) :
    B.verifyItems items s =
      .ok (decide ((∀ i ∈ items, reading₁.read (B.keyPoint i.1) ≠ 0) ∧
        reading₂.read t = (items.map B.itemRead).sum)) := by
  let decoded := items.map fun i => (B.keyPoint i.1, i.2)
  have hpoints : B.suite.coerceAll .key (items.map Prod.fst) = .ok (decoded.map Prod.fst) := by
    rw [coerceAll_keys (List.forall_mem_map.mpr hkeys), List.map_map, List.map_map]
    rfl
  have hmessages : items.map Prod.snd = decoded.map Prod.snd := by
    rw [List.map_map]
    rfl
  have hdecoded : decoded ≠ [] := fun h => hne (List.map_eq_nil_iff.mp h)
  have hmembers : ∀ i ∈ decoded, coding₁.Member i.1 :=
    List.forall_mem_map.mpr fun i hi => (coerce_keyPoint (hkeys i hi)).2
  -- the check of the triples that the keys are taken as
  have hcheck := L.verifyPairs_eq hdecoded hmembers (List.forall_mem_map.mpr hm) ht
  have hnonzero : (∀ i ∈ decoded, reading₁.read i.1 ≠ 0) ↔
      ∀ i ∈ items, reading₁.read (B.keyPoint i.1) ≠ 0 := List.forall_mem_map
  show B.suite.verifyPairs (items.map Prod.fst) s (items.map Prod.snd) = _
  rw [B.suite.verifyPairs_coerced hpoints hs, hmessages]
  refine hcheck.trans (congrArg Except.ok (decide_eq_decide.mpr ?_))
  rw [hnonzero, List.map_map]
  rfl

/-- With an identity among the keys the check fails, and otherwise it compares the signature with what the
    keys sign. -/
theorem verifyItems_of_key {items : List Item} (hne : items ≠ [])
    (hkeys : ∀ i ∈ items, B.IsKey i.1) (hm : ∀ i ∈ items, B.IsMessage i.2) :
    B.verifyItems items s = .ok (decide (reading₂.read t = (items.map B.itemRead).sum)) := by
  rw [L.verifyItems_eq hs ht hne (fun i hi => (hkeys i hi).1) hm]
  refine congrArg Except.ok (decide_eq_decide.mpr ?_)
  exact and_iff_right fun i hi => (hkeys i hi).read_ne_zero

/-- Two keys of one message, replaced by their sum. -/
theorem verifyItems_merged {items : List Item} (hkeys : ∀ i ∈ items, B.IsKey i.1)
    (hm : ∀ i ∈ items, B.IsMessage i.2) {i j : Nat} (hi : i < items.length) (hj : j < items.length)
    (hij : i ≠ j) (hsame : B.suite.bytesOf items[i].2 = B.suite.bytesOf items[j].2) :
    ∃ key, B.suite.aggregate .key (.list [items[i].1, items[j].1]) = .ok key ∧
      ∀ merged : List Item,
        merged.Perm ((items.set i (.element (.key key), items[i].2)).eraseIdx j) →
        B.verifyItems merged s =
          if B.suite.group₁.isIdentity key then .ok false else B.verifyItems items s := by
  have hitem : items[i] ∈ items := List.getElem_mem hi
  have hitem' : items[j] ∈ items := List.getElem_mem hj
  have hpair : ∀ v ∈ [items[i].1, items[j].1], B.IsMember .key v := by
    intro v hv
    rcases List.mem_pair.mp hv with rfl | rfl
    · exact (hkeys _ hitem).1
    · exact (hkeys _ hitem').1
  obtain ⟨key, hkey, hmember, hread⟩ := exists_aggregate_keys (List.cons_ne_nil _ _) hpair
  simp only [List.map_cons, List.map_nil, List.sum_cons, List.sum_nil, add_zero] at hread
  refine ⟨key, hkey, ?_⟩
  intro merged hperm
  have hlength : merged.length = items.length - 1 := by
    rw [hperm.length_eq, List.length_eraseIdx_of_lt (by rwa [List.length_set]), List.length_set]
  have hne : merged ≠ [] := by
    rintro rfl
    rw [List.length_nil] at hlength
    omega
  have hmessages : ∀ y ∈ merged, B.IsMessage y.2 := fun y hy =>
    forall_mem_merged (x := (.element (.key key), items[i].2)) hm (hm items[i] hitem) i j y
      (hperm.subset hy)
  -- what the signature is compared with stays as it is
  have hsum : (merged.map B.itemRead).sum = (items.map B.itemRead).sum := by
    rw [(hperm.map B.itemRead).sum_eq]
    refine sum_merged B.itemRead hi hj hij ?_
    rw [itemRead, itemRead, itemRead, keyPoint_key, hread, log_add_nsmul, messagePoint_congr hsame]
  by_cases hidentity : B.suite.group₁.isIdentity key = true
  · -- the merged key is among those that are looked at
    have hmem : (.element (.key key), items[i].2) ∈ merged := by
      refine hperm.symm.subset (List.mem_eraseIdx_iff_getElem.mpr ⟨i, ?_, hij, ?_⟩)
      · rwa [List.length_set]
      · exact List.getElem_set_self _
    have hmembers : ∀ y ∈ merged, B.IsMember .key y.1 := fun y hy =>
      forall_mem_merged (x := (.element (.key key), items[i].2)) (fun y hy => (hkeys y hy).1)
        (isMember_of (f := .key) hmember) i j y (hperm.subset hy)
    rw [if_pos hidentity, L.verifyItems_eq hs ht hne hmembers hmessages, decide_eq_false]
    intro h
    have hzero := h.1 _ hmem
    rw [keyPoint_key] at hzero
    exact hzero ((reading₁.isIdentity_iff hmember).mp hidentity)
  · have hmergedKeys : ∀ y ∈ merged, B.IsKey y.1 := fun y hy =>
      forall_mem_merged (x := (.element (.key key), items[i].2)) hkeys
        (isKey_of hmember (Bool.not_eq_true _ ▸ hidentity)) i j y (hperm.subset hy)
    rw [if_neg hidentity, L.verifyItems_of_key hs ht hne hmergedKeys hmessages, hsum,
      L.verifyItems_of_key hs ht (List.ne_nil_of_mem hitem) hkeys hm]

/-- All keys of one message, replaced by their sum. -/
theorem fastAggregateVerify_merged {keys : List (Value (Point Fq) (Point Fq2))}
    {m : Value (Point Fq) (Point Fq2)} (hne : keys ≠ []) (hkeys : ∀ v ∈ keys, B.IsKey v)
    (hm : B.IsMessage m) :
    ∃ key, B.suite.aggregate .key (.list keys) = .ok key ∧
      B.suite.fastAggregateVerify (.list keys) m s =
        (if B.suite.group₁.isIdentity key then .ok false
          else B.verifyItems (keys.map fun v => (v, m)) s) ∧
      (B.suite.group₁.isIdentity key = true →
        B.verifyItems (keys.map fun v => (v, m)) s = .ok (B.suite.group₂.isIdentity t)) := by
  obtain ⟨key, hkey, hmember, hread⟩ := exists_aggregate_keys hne fun v hv => (hkeys v hv).1
  have hidentity : B.suite.group₁.isIdentity key = true ↔ reading₁.read key = 0 :=
    reading₁.isIdentity_iff hmember
  have hitems : B.verifyItems (keys.map fun v => (v, m)) s =
      .ok (decide (reading₂.read t =
        log (reading₁.read key) • reading₂.read (B.messagePoint m))) := by
    rw [L.verifyItems_of_key hs ht (fun h => hne (List.map_eq_nil_iff.mp h))
      (List.forall_mem_map.mpr hkeys) (List.forall_mem_map.mpr fun _ _ => hm), hread,
      log_sum_nsmul, List.map_map, List.map_map]
    rfl
  have hfast : B.suite.fastAggregateVerify (.list keys) m s =
      B.suite.verifySignature key (.element (.signature t)) m := by
    have hempty : keys.isEmpty = false := by
      rwa [Bool.eq_false_iff, Ne, List.isEmpty_iff]
    have hsum : B.suite.aggregateList .key keys = .ok key := hkey
    rw [Suite.fastAggregateVerify]
    simp only [Suite.items, Suite.members, bind, Except.bind, hempty, Bool.false_eq_true, if_false,
      hs, hsum]
  refine ⟨key, hkey, ?_, ?_⟩
  · rw [hfast, L.verifySignature_eq hmember ht hm, hitems]
    -- the identity is turned down by one check, and counts for nothing in the other
    by_cases hzero : reading₁.read key = 0
    · rw [if_pos (hidentity.mpr hzero), decide_eq_false (fun h => h.1 hzero)]
    · rw [if_neg (fun h => hzero (hidentity.mp h))]
      exact congrArg Except.ok (decide_eq_decide.mpr (and_iff_right hzero))
  · intro h
    have hone : (∀ a : G₂, log (0 : G₁) • a = 0) := fun a => map_zero (logPairing a)
    rw [hitems, hidentity.mp h, hone]
    refine congrArg Except.ok ?_
    rw [Bool.eq_iff_iff, decide_eq_true_iff]
    exact (reading₂.isIdentity_iff ht).symm

/-- Two keys that share a message can be replaced by their sum, in whatever place, and one copy of the
    message left out: the answer is the same, unless the sum is the identity, which is refused.  For one
    message, the check of the same message is the check with a copy of it for every key, again unless the
    keys sum up to the identity; then the latter accepts the identity as signature and nothing else. -/
theorem verifyDistinctAggregated_merge :
    (∀ (items : List Item) (i j : Nat) (hi : i < items.length) (hj : j < items.length), i ≠ j →
      (∀ y ∈ items, B.IsKey y.1) → (∀ y ∈ items, B.IsMessage y.2) →
      B.suite.bytesOf items[i].2 = B.suite.bytesOf items[j].2 →
      ∃ key, B.suite.aggregate .key (.list [items[i].1, items[j].1]) = .ok key ∧
        ∀ merged : List Item,
          merged.Perm ((items.set i (.element (.key key), items[i].2)).eraseIdx j) →
          B.verifyItems merged s =
            if B.suite.group₁.isIdentity key then .ok false else B.verifyItems items s) ∧
    ∀ (keys : List (Value (Point Fq) (Point Fq2))) (m : Value (Point Fq) (Point Fq2)), keys ≠ [] →
      (∀ v ∈ keys, B.IsKey v) → B.IsMessage m →
      ∃ key, B.suite.aggregate .key (.list keys) = .ok key ∧
        B.suite.fastAggregateVerify (.list keys) m s =
          (if B.suite.group₁.isIdentity key then .ok false
            else B.verifyItems (keys.map fun v => (v, m)) s) ∧
        (B.suite.group₁.isIdentity key = true →
          B.verifyItems (keys.map fun v => (v, m)) s = .ok (B.suite.group₂.isIdentity t)) :=
  ⟨fun _ _ _ hi hj hij hkeys hm hsame => L.verifyItems_merged hs ht hkeys hm hi hj hij hsame,
    fun _ _ hne hkeys hm => L.fastAggregateVerify_merged hs ht hne hkeys hm⟩

end Laws

/-- The generator as a key of two messages, and a third key that shares the first of them. -/
def threeItems (p : Point Fq) : List Item :=
  [(.element (.key generator), .ofBytes [97]), (.element (.key generator), .ofBytes [98]),
    (.element (.key p), .ofBytes [97])]

theorem isKey_generator : B.IsKey (.element (.key generator)) :=
  isKey_of member_generator (show generator.isInfinity = false by decide)

theorem isKey_generator_neg : B.IsKey (.element (.key generator.neg)) :=
  isKey_of (neg_spec₁ member_generator).1 (show generator.neg.isInfinity = false by decide)

theorem isKey_threeItems {p : Point Fq} (hp : B.IsKey (.element (.key p))) :
    ∀ y ∈ threeItems p, B.IsKey y.1 := by
  simp only [threeItems, List.forall_mem_cons, List.not_mem_nil, IsEmpty.forall_iff, implies_true,
    and_true]
  exact ⟨isKey_generator, isKey_generator, hp⟩

theorem isMessage_threeItems (p : Point Fq) : ∀ y ∈ threeItems p, B.IsMessage y.2 := by
  simp only [threeItems, List.forall_mem_cons, List.not_mem_nil, IsEmpty.forall_iff, implies_true,
    and_true]
  exact ⟨⟨[97], rfl⟩, ⟨[98], rfl⟩, ⟨[97], rfl⟩⟩

/-- What the three items sign if the third key is the generator too.  Its secret key is one, so that it
    signs a message with the point that the message hashes to. -/
noncomputable def equalSigned : Point Fq2 :=
  coding₂.group.sum ((threeItems generator).map fun i => logBackend.messagePoint i.2) Point.infinity

/-- The signature is the sum of what the three keys sign. -/
theorem equalSigned_spec :
    coding₂.Member equalSigned ∧
      reading₂.read equalSigned = ((threeItems generator).map logBackend.itemRead).sum := by
  have hpoints : ∀ h ∈ (threeItems generator).map fun i => logBackend.messagePoint i.2,
      coding₂.Member h :=
    List.forall_mem_map.mpr fun i _ => logLaws.member_messagePoint i.2
  obtain ⟨hmember, hread⟩ := reading₂.sum_spec hpoints member_infinity₂
  refine ⟨hmember, hread.trans ?_⟩
  rw [show reading₂.read Point.infinity = 0 from reading₂.read_identity, zero_add, List.map_map]
  refine congrArg List.sum (List.map_congr_left fun i hi => ?_)
  -- every key among them is the generator, and so acts like the number one
  have hkey : reading₁.read (logBackend.keyPoint i.1) = 1 • g₁ := by
    obtain rfl | rfl | rfl := by simpa [threeItems] using hi
    all_goals rw [keyPoint_key, one_nsmul, g₁]
  rw [itemRead, log_nsmul_of_eq hkey, one_nsmul]
  rfl

/-- With the pairing by logarithms.  The key that shares a message may be opposite to the first one: once
    they are merged, the identity is accepted no more, and it never passes for keys of one message that are
    added up.  Or it may be the same key: the merged key is then another one, and what the three sign passes
    before they are merged and after. -/
theorem verifyDistinctAggregated_merge_threeItems :
    (logBackend.suite.coerce .signature (.element (.signature Point.infinity)) false =
        .ok Point.infinity ∧
      coding₂.Member Point.infinity ∧
      (∀ y ∈ threeItems generator.neg, logBackend.IsKey y.1) ∧
      (∀ y ∈ threeItems generator.neg, logBackend.IsMessage y.2) ∧
      logBackend.suite.aggregate .key (.list (elements .key [generator, generator.neg])) =
        .ok Point.infinity ∧
      logBackend.verifyItems
          [(.element (.key Point.infinity), .ofBytes [97]), (.element (.key generator), .ofBytes [98])]
          (.element (.signature Point.infinity)) = .ok false ∧
      logBackend.suite.fastAggregateVerify (.list (elements .key [generator, generator.neg]))
          (.ofBytes [97]) (.element (.signature Point.infinity)) = .ok false ∧
      logBackend.verifyItems
          [(.element (.key generator), .ofBytes [97]), (.element (.key generator.neg), .ofBytes [97])]
          (.element (.signature Point.infinity)) = .ok true) ∧
    coding₂.Member equalSigned ∧
      (∀ y ∈ threeItems generator, logBackend.IsKey y.1) ∧
      (∀ y ∈ threeItems generator, logBackend.IsMessage y.2) ∧
      logBackend.suite.aggregate .key (.list (elements .key [generator, generator])) =
        .ok generator.double ∧
      generator.double.isInfinity = false ∧
      logBackend.verifyItems (threeItems generator) (.element (.signature equalSigned)) = .ok true ∧
      logBackend.verifyItems
          [(.element (.key generator.double), .ofBytes [97]), (.element (.key generator), .ofBytes [98])]
          (.element (.signature equalSigned)) = .ok true := by
  refine ⟨?_, ?_⟩
  · have hs := logBackend.suite.coerce_signature Point.infinity false
    have hkeys := isKey_threeItems (B := logBackend) isKey_generator_neg
    have hm := isMessage_threeItems (B := logBackend) generator.neg
    have hpair : ∀ v ∈ elements .key [generator, generator.neg], logBackend.IsKey v := by
      intro v hv
      rcases List.mem_pair.mp hv with rfl | rfl
      · exact isKey_generator
      · exact isKey_generator_neg
    have hcancel : generator.add generator.neg = Point.infinity := by decide +kernel
    have hsum : logBackend.suite.aggregate .key (.list (elements .key [generator, generator.neg])) =
        .ok Point.infinity := congrArg Except.ok hcancel
    obtain ⟨htwo, hall⟩ := logLaws.verifyDistinctAggregated_merge hs member_infinity₂
    obtain ⟨key, hkey, hmerged⟩ :=
      htwo (threeItems generator.neg) 0 2 (by decide) (by decide) (by decide) hkeys hm rfl
    -- the key that the theorem speaks of is the sum that was computed
    obtain rfl : key = Point.infinity := Except.ok.inj (hkey.symm.trans hsum)
    obtain ⟨key', hkey', hfast, hdistinct⟩ :=
      hall _ (.ofBytes [97]) (List.cons_ne_nil _ _) hpair ⟨[97], rfl⟩
    obtain rfl : key' = Point.infinity := Except.ok.inj (hkey'.symm.trans hsum)
    exact ⟨hs, member_infinity₂, hkeys, hm, hsum, hmerged _ (List.Perm.refl _), hfast, hdistinct rfl⟩
  · obtain ⟨hmember, hread⟩ := equalSigned_spec
    have hs := logBackend.suite.coerce_signature equalSigned false
    have hkeys := isKey_threeItems (B := logBackend) isKey_generator
    have hm := isMessage_threeItems (B := logBackend) generator
    -- the sum of equal keys is no identity, so merging them changes nothing
    have hdouble : generator.add generator = generator.double := by decide +kernel
    have hsum : logBackend.suite.aggregate .key (.list (elements .key [generator, generator])) =
        .ok generator.double := congrArg Except.ok hdouble
    have hfinite : generator.double.isInfinity = false := by decide +kernel
    have hfinite' : ¬ logBackend.suite.group₁.isIdentity generator.double = true :=
      Bool.eq_false_iff.mp hfinite
    have hpass : logBackend.verifyItems (threeItems generator) (.element (.signature equalSigned)) =
        .ok true := by
      have hne : threeItems generator ≠ [] := List.cons_ne_nil _ _
      rw [logLaws.verifyItems_of_key hs hmember hne hkeys hm, decide_eq_true hread]
    obtain ⟨key, hkey, hmerged⟩ := (logLaws.verifyDistinctAggregated_merge hs hmember).1
      (threeItems generator) 0 2 (by decide) (by decide) (by decide) hkeys hm rfl
    obtain rfl : key = generator.double := Except.ok.inj (hkey.symm.trans hsum)
    refine ⟨hmember, hkeys, hm, hsum, hfinite, hpass, ?_⟩
    refine (hmerged _ (List.Perm.refl _)).trans ?_
    rw [if_neg hfinite', hpass]

end Backend

end AggSig
