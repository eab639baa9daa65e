/-
  Proofs of possession that are checked in one batch.

  How far a key's proof is off is an element of the second group, its `defect`: a proof passes alone
  exactly if its defect is zero (`verifyPossession_eq`), and a batch passes exactly if the defects,
  each times its weight, sum up to zero (`weightedCheck_eq`).

  The weights are what a random source gives, and any list of weights in range may be given
  (`exists_source_iff`).  A weight is above zero and below the prime group order, so one defect alone never
  vanishes under its weight, and two weights never make the same multiple of it.  From this follows what
  `batchVerify` accepts: all entries that pass alone, never exactly one that does not, and for each entry
  that does not pass alone at most one weight of it while the others stay.
-/
import AggSig.Proofs.Verify.Single

namespace AggSig.Backend

variable {T : Type}

/-! ## Entries and weights -/

/-- A key with its proof of possession. -/
abbrev Entry : Type := Point Fq × Point Fq2

/-- What a batch is given: members of their groups, and no key at infinity. -/
def IsEntry (e : Entry) : Prop :=
  coding₁.Member e.1 ∧ e.1.isInfinity = false ∧ coding₂.Member e.2

/-- The check of a batch as it is run: its answer, and what it leaves of the random source that it draws the
    weights from. -/
def runBatch [One T] [Mul T] [DecidableEq T] (B : Backend T) (entries : List Entry) :
    Drawing (Except Failure Bool) :=
  B.suite.batchVerify (.list (elements .key (entries.map Prod.fst)))
    (.list (elements .proof (entries.map Prod.snd)))

/-- The weights that a batch of a number of entries draws from a random source. -/
def drawnWeights (count : Nat) (source : RandomSource) : List Nat :=
  (RandomSource.several Suite.weightBound count source).1.map (· + 1)

/-- Weights that a source gives if it keeps to the bound that it is asked for. -/
def InRange (weights : List Nat) : Prop := ∀ c ∈ weights, 1 ≤ c ∧ c ≤ 2 ^ 128 - 1

/-- A weight is drawn below this bound, and made positive by adding one. -/
theorem weightBound_eq : Suite.weightBound = 2 ^ 128 - 1 := rfl

/-- A batch draws as many weights as it has entries, whatever the source. -/
theorem length_drawnWeights (count : Nat) (source : RandomSource) :
    (drawnWeights count source).length = count := by
  rw [drawnWeights, RandomSource.several_eq, List.length_map, List.length_append, List.length_take,
    List.length_replicate]
  omega

/-- Numbers that are drawn below the bound give weights in range, also after the last number of the source. -/
theorem inRange_drawnWeights {count : Nat} {source : RandomSource}
    (h : ∀ n ∈ source.pending.take count, n < 2 ^ 128 - 1) : InRange (drawnWeights count source) := by
  intro c hc
  rw [drawnWeights, RandomSource.several_eq] at hc
  obtain ⟨n, hn, rfl⟩ := List.mem_map.mp hc
  have hlt : n < 2 ^ 128 - 1 := by
    rcases List.mem_append.mp hn with hn | hn
    · exact h n hn
    · rw [List.eq_of_mem_replicate hn]
      decide
  exact ⟨Nat.succ_pos n, hlt⟩

/-- The source that gives certain weights: each is one more than the number that it is drawn with. -/
def sourceOf (weights : List Nat) : RandomSource := ⟨weights.map (· - 1), []⟩

/-- The weights in range are drawn from the source that is made for them. -/
theorem drawnWeights_sourceOf {weights : List Nat} (hrange : InRange weights) :
    drawnWeights weights.length (sourceOf weights) = weights := by
  have hcount : weights.length = (sourceOf weights).pending.length := (List.length_map _).symm
  rw [drawnWeights, RandomSource.several_eq, hcount, List.take_length, Nat.sub_self, List.replicate_zero,
    List.append_nil, sourceOf, List.map_map]
  conv_rhs => rw [← List.map_id weights]
  refine List.map_congr_left fun c hc => ?_
  exact Nat.sub_add_cancel (hrange c hc).1

/-- Sources that keep to the bound, as far as they are drawn from, give the weights in range, all of them
    and nothing else. -/
theorem exists_source_iff {count : Nat} {weights : List Nat} :
    (∃ source : RandomSource, (∀ n ∈ source.pending.take count, n < 2 ^ 128 - 1) ∧
        drawnWeights count source = weights) ↔
      weights.length = count ∧ InRange weights := by
  constructor
  · rintro ⟨source, hsource, rfl⟩
    exact ⟨length_drawnWeights count source, inRange_drawnWeights hsource⟩
  · rintro ⟨rfl, hrange⟩
    refine ⟨sourceOf weights, ?_, drawnWeights_sourceOf hrange⟩
    intro n hn
    obtain ⟨c, hc, rfl⟩ := List.mem_map.mp (List.mem_of_mem_take hn)
    have := hrange c hc
    omega

/-- The weights around the place of an entry. -/
theorem exists_weights_eq_append {weights : List Nat} {left right : List Entry} {e : Entry}
    (hcount : weights.length = (left ++ e :: right).length) :
    ∃ before c after, weights = before ++ c :: after ∧ before.length = left.length := by
  have hlt : left.length < weights.length := by
    rw [hcount, List.length_append, List.length_cons]
    omega
  obtain ⟨c, after, hdrop⟩ : ∃ c after, weights.drop left.length = c :: after :=
    ⟨_, _, List.drop_eq_getElem_cons hlt⟩
  refine ⟨weights.take left.length, c, after, ?_, ?_⟩
  · rw [← hdrop, List.take_append_drop]
  · rw [List.length_take]
    omega

/-! ## Defects -/

/-- The point that a key hashes to. -/
def possessionPoint (B : Backend T) (k : Point Fq) : Point Fq2 :=
  match B.suite.group₁.encodeCompressed k with
  | .ok data => B.hash .possession data
  | .error _ => Point.infinity

/-- Every point of the first group has an encoding, so every key can be hashed. -/
theorem hashKey_eq (B : Backend T) (k : Point Fq) :
    B.suite.hashKey k = .ok (B.possessionPoint k) := by
  obtain ⟨data, hdata⟩ : ∃ data, B.suite.group₁.encodeCompressed k = .ok data := by
    show ∃ data, coding₁.encodeCompressed k = .ok data
    rw [Coding.encodeCompressed, if_neg (fun h => absurd h.1 (by decide))]
    split <;> exact ⟨_, rfl⟩
  rw [Suite.hashKey, possessionPoint, hdata]
  rfl

/-- How far a proof is from the one that belongs to its key. -/
noncomputable def defect (B : Backend T) (e : Entry) : G₂ :=
  reading₂.read e.2 - log (reading₁.read e.1) • reading₂.read (B.possessionPoint e.1)

/-- The key of an entry is not the identity. -/
theorem read_ne_zero {e : Entry} (he : IsEntry e) : reading₁.read e.1 ≠ 0 := by
  intro h
  have hinfinite : e.1.isInfinity = true := (reading₁.isIdentity_iff he.1).mpr h
  rw [he.2.1] at hinfinite
  exact Bool.noConfusion hinfinite

/-! ## A key with its own proof -/

/-- A public key with the proof that its secret key makes. -/
def ownEntry (B : Backend T) (k : Keypair) : Entry :=
  (B.suite.publicKey k,
    B.suite.group₂.multiply (B.possessionPoint (B.suite.publicKey k)) k.secret.scalar)

/-- A keypair always has a proof, and its own entry holds that proof. -/
theorem prove_eq (B : Backend T) (k : Keypair) : B.suite.prove k = .ok (B.ownEntry k).2 := by
  rw [Suite.prove, hashKey_eq]
  rfl

/-- The entry whose proof is off by a further point. -/
def spoil (e : Entry) (p : Point Fq2) : Entry := (e.1, coding₂.group.add e.2 p)

theorem isEntry_spoil {e : Entry} {p : Point Fq2} (he : IsEntry e) (hp : coding₂.Member p) :
    IsEntry (spoil e p) :=
  ⟨he.1, he.2.1, reading₂.valid_add he.2.2 hp⟩

/-- A further point adds to the defect. -/
theorem defect_spoil (B : Backend T) {e : Entry} {p : Point Fq2} (he : IsEntry e)
    (hp : coding₂.Member p) : B.defect (spoil e p) = B.defect e + reading₂.read p := by
  have hproof : reading₂.read (spoil e p).2 = reading₂.read e.2 + reading₂.read p :=
    reading₂.read_add he.2.2 hp
  rw [defect, hproof, defect, add_sub_right_comm]
  rfl

/-! ## Weighted sums of defects -/

/-- Weights are below the group order. -/
theorem lt_groupOrder_of_inRange {weights : List Nat} (h : InRange weights) {c : Nat}
    (hc : c ∈ weights) : c < groupOrder := by
  have hbound : 2 ^ 128 - 1 < groupOrder := by decide
  exact (h c hc).2.trans_lt hbound

/-- Entries without defects add nothing, whatever their weights. -/
theorem sum_weighted_eq_zero {B : Backend T} {entries : List Entry} {weights : List Nat}
    (h : ∀ e ∈ entries, B.defect e = 0) :
    (List.zipWith (fun e c => c • B.defect e) entries weights).sum = 0 := by
  induction entries generalizing weights with
  | nil => rfl
  | cons e rest ih =>
    cases weights with
    | nil => rfl
    | cons c weights =>
      rw [List.zipWith_cons_cons, List.sum_cons, h e List.mem_cons_self, nsmul_zero, zero_add]
      exact ih fun f hf => h f (List.mem_cons_of_mem e hf)

/-- The weighted sum around one entry. -/
theorem sum_weighted_append (B : Backend T) {left right : List Entry} {before after : List Nat}
    (e : Entry) (c : Nat) (hlength : before.length = left.length) :
    (List.zipWith (fun e c => c • B.defect e) (left ++ e :: right) (before ++ c :: after)).sum =
      (List.zipWith (fun e c => c • B.defect e) left before).sum + (c • B.defect e +
        (List.zipWith (fun e c => c • B.defect e) right after).sum) := by
  rw [List.zipWith_append hlength.symm, List.zipWith_cons_cons, List.sum_append, List.sum_cons]

/-- A proof is its defect and what belongs to its key, and so are the weighted sums. -/
theorem sum_weighted_proofs (B : Backend T) (items : List (Entry × Nat)) :
    (items.map fun i => i.2 • reading₂.read i.1.2).sum =
      (items.map fun i => i.2 • B.defect i.1).sum +
        (items.map fun i => i.2 • log (reading₁.read i.1.1) •
          reading₂.read (B.possessionPoint i.1.1)).sum := by
  rw [← List.sum_map_add]
  congr 1
  apply List.map_congr_left
  intro i _
  rw [← nsmul_add, defect, sub_add_cancel]

/-- Whether a batch passes under a list of weights: the defects, each times its weight, sum up to zero. -/
noncomputable def passes (B : Backend T) (entries : List Entry) (weights : List Nat) : Bool :=
  decide ((List.zipWith (fun e c => c • B.defect e) entries weights).sum = 0)

/-- Entries without defects pass under all weights. -/
theorem passes_of_defects_eq_zero {B : Backend T} {entries : List Entry} {weights : List Nat}
    (h : ∀ e ∈ entries, B.defect e = 0) : B.passes entries weights = true :=
  decide_eq_true (sum_weighted_eq_zero h)

/-- One defect alone fails under all weights in range: what remains of the sum is that defect under its
    weight. -/
theorem passes_of_one_defect {B : Backend T} {left right : List Entry} {e : Entry}
    (h : ∀ f ∈ left ++ right, B.defect f = 0) (hdefect : B.defect e ≠ 0) {weights : List Nat}
    (hcount : weights.length = (left ++ e :: right).length) (hrange : InRange weights) :
    B.passes (left ++ e :: right) weights = false := by
  have hleft : ∀ f ∈ left, B.defect f = 0 := fun f hf => h f (List.mem_append_left right hf)
  have hright : ∀ f ∈ right, B.defect f = 0 := fun f hf => h f (List.mem_append_right left hf)
  obtain ⟨before, c, after, rfl, hlength⟩ := exists_weights_eq_append hcount
  have hc : c ∈ before ++ c :: after := List.mem_append_right before List.mem_cons_self
  have hsum : (List.zipWith (fun e c => c • B.defect e) (left ++ e :: right)
      (before ++ c :: after)).sum = c • B.defect e := by
    rw [sum_weighted_append B e c hlength, sum_weighted_eq_zero hleft, sum_weighted_eq_zero hright,
      zero_add, add_zero]
  rw [passes, hsum, decide_eq_false]
  -- the weight is below the prime order and positive, so no multiple of the order
  rw [nsmul_eq_zero_iff hdefect, Nat.mod_eq_of_lt (lt_groupOrder_of_inRange hrange hc)]
  have := (hrange c hc).1
  omega

/-- Two weights of an entry with a defect under which the batch passes, while the other weights stay,
    make the same multiple of the defect, so they are the same. -/
theorem weight_unique {B : Backend T} {left right : List Entry} {e : Entry} (hdefect : B.defect e ≠ 0)
    {before after : List Nat} {c c' : Nat} (hlength : before.length = left.length)
    (hrange : InRange (before ++ c :: after)) (hrange' : InRange (before ++ c' :: after))
    (hpass : B.passes (left ++ e :: right) (before ++ c :: after) = true)
    (hpass' : B.passes (left ++ e :: right) (before ++ c' :: after) = true) : c = c' := by
  have hzero := of_decide_eq_true hpass
  have hzero' := of_decide_eq_true hpass'
  rw [sum_weighted_append B e c hlength] at hzero
  rw [sum_weighted_append B e c' hlength] at hzero'
  -- what the other entries add is the same in both sums
  have hmultiples : c • B.defect e = c' • B.defect e :=
    add_right_cancel (add_left_cancel (hzero.trans hzero'.symm))
  have hmod : c ≡ c' [MOD groupOrder] := (nsmul_eq_nsmul_iff hdefect).mp hmultiples
  have hlt : c < groupOrder := lt_groupOrder_of_inRange hrange (by simp)
  have hlt' : c' < groupOrder := lt_groupOrder_of_inRange hrange' (by simp)
  exact Nat.ModEq.eq_of_lt_of_lt hmod hlt hlt'

namespace Laws

variable [One T] [Mul T] {B : Backend T} {E : Type} [AddCommGroup E] (L : B.Laws E)

include L

/-- The point of a key is in the subgroup. -/
theorem member_possessionPoint (k : Point Fq) : coding₂.Member (B.possessionPoint k) := by
  rw [possessionPoint]
  split
  · exact L.member_hash .possession _
  · exact member_infinity₂

/-- A keypair with its own proof is an entry. -/
theorem isEntry_ownEntry (k : Keypair) : IsEntry (B.ownEntry k) := by
  refine ⟨B.member_publicKey k, ?_, ?_⟩
  · have hread := B.read_publicKey_ne_zero k
    rw [Ne, ← reading₁.isIdentity_iff (B.member_publicKey k), Bool.not_eq_true] at hread
    exact hread
  · exact reading₂.valid_multiply (L.member_possessionPoint _) k.secret.scalar

/-- The proof that a secret key makes has no defect. -/
theorem defect_ownEntry (k : Keypair) : B.defect (B.ownEntry k) = 0 := by
  have hproof : reading₂.read (B.ownEntry k).2 =
      k.secret.scalar • reading₂.read (B.possessionPoint (B.ownEntry k).1) :=
    reading₂.read_multiply (L.member_possessionPoint _) k.secret.scalar
  have hkey : reading₁.read (B.ownEntry k).1 = k.secret.scalar • g₁ := B.read_publicKey k
  rw [defect, hproof, log_nsmul_of_eq hkey, sub_self]

variable [DecidableEq T]

/-- A proof passes alone exactly if it has no defect. -/
theorem verifyPossession_eq {e : Entry} (he : IsEntry e) :
    B.suite.verifyPossession e.1 (.element (.proof e.2)) = .ok (decide (B.defect e = 0)) := by
  have hfinite : B.suite.group₁.isIdentity e.1 = false := he.2.1
  have hcore := L.coreVerify_eq he.1 (L.member_possessionPoint e.1) he.2.2
  rw [Suite.verifyPossession, Suite.coerce_proof, hashKey_eq]
  simp only [bind, Except.bind, hfinite, Bool.false_eq_true, if_false, hcore]
  congr 1
  rw [decide_eq_decide, defect, sub_eq_zero]
  exact and_iff_right (read_ne_zero he)

/-- A batch passes exactly if the weighted defects sum up to zero. -/
theorem weightedCheck_eq {items : List (Entry × Nat)} (hitems : ∀ i ∈ items, IsEntry i.1) :
    B.suite.weightedCheck (items.map fun i => i.1.1) (items.map fun i => i.1.2)
        (items.map Prod.snd) =
      .ok (decide ((items.map fun i => i.2 • B.defect i.1).sum = 0)) := by
  have hhashes : (items.map fun i => i.1.1).mapM B.suite.hashKey =
      .ok ((items.map fun i => i.1.1).map B.possessionPoint) :=
    mapM_ok fun k _ => B.hashKey_eq k
  have hkeys : ((items.map fun i => i.1.1).map B.possessionPoint).zip
        (List.zipWith B.suite.group₁.multiply (items.map fun i => i.1.1) (items.map Prod.snd)) =
      items.map fun i => (B.possessionPoint i.1.1, B.suite.group₁.multiply i.1.1 i.2) := by
    rw [List.zipWith_map, List.zipWith_self, List.map_map, List.zip_map']
    rfl
  have hproofs : List.zipWith B.suite.group₂.multiply (items.map fun i => i.1.2)
        (items.map Prod.snd) =
      items.map fun i => B.suite.group₂.multiply i.1.2 i.2 := by
    rw [List.zipWith_map, List.zipWith_self]
  have hpairs : ∀ p ∈ items.map fun i => (B.possessionPoint i.1.1,
      B.suite.group₁.multiply i.1.1 i.2), coding₂.Member p.1 ∧ coding₁.Member p.2 := by
    intro p hp
    obtain ⟨i, hi, rfl⟩ := List.mem_map.mp hp
    exact ⟨L.member_possessionPoint i.1.1, reading₁.valid_multiply (hitems i hi).1 i.2⟩
  obtain ⟨htotal, hread⟩ :
      coding₂.Member (B.suite.group₂.sum (items.map fun i => B.suite.group₂.multiply i.1.2 i.2)
        B.suite.group₂.identity) ∧
      reading₂.read (B.suite.group₂.sum (items.map fun i => B.suite.group₂.multiply i.1.2 i.2)
        B.suite.group₂.identity) = (items.map fun i => i.2 • reading₂.read i.1.2).sum := by
    have hproof : ∀ j ∈ items.map fun i => (i.1.2, i.2), coding₂.Member j.1 :=
      List.forall_mem_map.mpr fun i hi => (hitems i hi).2.2
    have hsum := reading₂.sum_multiply_spec hproof
    rw [List.map_map, List.map_map] at hsum
    exact hsum
  -- a weighted key has the weighted logarithm
  have hlog : ∀ i ∈ items,
      log (reading₁.read (B.suite.group₁.multiply i.1.1 i.2)) •
          reading₂.read (B.possessionPoint i.1.1) =
        i.2 • log (reading₁.read i.1.1) • reading₂.read (B.possessionPoint i.1.1) :=
    fun i hi => log_read_multiply (hitems i hi).1 i.2 _
  have hcheck := L.pairingCheck_eq hpairs htotal
  rw [List.map_map, hread, sum_weighted_proofs] at hcheck
  rw [Suite.weightedCheck, hhashes]
  simp only [bind, Except.bind, hkeys, hproofs, hcheck]
  refine congrArg Except.ok (decide_eq_decide.mpr ?_)
  rw [← List.map_congr_left hlog]
  exact add_eq_right

/-- With one weight for each entry, the weighted check is whether the batch passes under them. -/
theorem weightedCheck_entries {entries : List Entry} (hentries : ∀ e ∈ entries, IsEntry e)
    {weights : List Nat} (hlength : weights.length = entries.length) :
    B.suite.weightedCheck (entries.map Prod.fst) (entries.map Prod.snd) weights =
      .ok (B.passes entries weights) := by
  -- entries and weights as one row of pairs, and the two rows taken from it again
  have hfst : (entries.zip weights).map Prod.fst = entries := List.map_fst_zip hlength.ge
  have hsnd : (entries.zip weights).map Prod.snd = weights := List.map_snd_zip hlength.le
  have hkeys : ((entries.zip weights).map fun i => i.1.1) = entries.map Prod.fst := by
    conv_rhs => rw [← hfst, List.map_map]
    rfl
  have hproofs : ((entries.zip weights).map fun i => i.1.2) = entries.map Prod.snd := by
    conv_rhs => rw [← hfst, List.map_map]
    rfl
  have hsum : ((entries.zip weights).map fun i => i.2 • B.defect i.1) =
      List.zipWith (fun e c => c • B.defect e) entries weights := by
    rw [List.map_zip_eq_zipWith]
    rfl
  have hcheck := L.weightedCheck_eq fun i (hi : i ∈ entries.zip weights) =>
    hentries i.1 (List.of_mem_zip hi).1
  rwa [hkeys, hproofs, hsnd, hsum] at hcheck

/-- The same for a batch as it is run: it passes under the weights that its source gives, and the source is
    asked for one number below the bound for each entry, and for nothing else. -/
theorem runBatch_eq {entries : List Entry} (hne : entries ≠ []) (hentries : ∀ e ∈ entries, IsEntry e)
    (source : RandomSource) :
    B.runBatch entries source =
      (.ok (B.passes entries (drawnWeights entries.length source)),
        ⟨source.pending.drop entries.length,
          source.bounds ++ List.replicate entries.length (2 ^ 128 - 1)⟩) := by
  have hmembers : B.suite.batchMembers (elements .key (entries.map Prod.fst))
      (elements .proof (entries.map Prod.snd)) =
        .ok (entries.map Prod.fst, entries.map Prod.snd) :=
    B.suite.batchMembers_elements (by rw [List.length_map, List.length_map])
      (fun h => hne (List.map_eq_nil_iff.mp h))
  have hfinite : (entries.map Prod.fst).any B.suite.group₁.isIdentity = false := by
    rw [List.any_map, List.any_eq_false]
    exact fun e he => Bool.eq_false_iff.mp (hentries e he).2.1
  have hcheck := L.weightedCheck_entries hentries (length_drawnWeights entries.length source)
  have hsource : (RandomSource.several Suite.weightBound entries.length source).2 =
      ⟨source.pending.drop entries.length,
        source.bounds ++ List.replicate entries.length (2 ^ 128 - 1)⟩ := by
    rw [RandomSource.several_eq, weightBound_eq]
  rw [← hcheck, ← hsource, runBatch, Suite.batchVerify]
  -- nothing is drawn before the keys have been looked at
  simp only [Suite.items, Suite.members]
  rw [Suite.batchVerifyLists, hmembers]
  simp only [hfinite, Bool.false_eq_true, if_false, List.length_map]
  rfl

/-! ## What a batch accepts -/

/-- For keys that are not the identity and any proofs, all members of their groups, both checks answer.
    Let `valid` be the answer for one entry, and `passes` that for the batch under a list of weights.  A run
    answers as its source's weights say, and asks for one number below `2 ^ 128 - 1` for each entry; if
    these numbers are below it, the weights may be any list of the right length and range, and no other.
    If all entries are valid the batch passes under all weights.  If exactly one is not, it fails under all
    weights in range.  And an entry that is not valid leaves at most one weight of its own, for fixed other
    weights, under which the batch passes. -/
theorem batchVerify_exact {entries : List Entry} (hne : entries ≠ [])
    (hentries : ∀ e ∈ entries, IsEntry e) :
    ∃ (valid : Entry → Bool) (passes : List Nat → Bool),
      (∀ e ∈ entries,
        B.suite.verifyPossession e.1 (.element (.proof e.2)) = .ok (valid e)) ∧
      (∀ source, B.runBatch entries source =
        (.ok (passes (drawnWeights entries.length source)),
          ⟨source.pending.drop entries.length,
            source.bounds ++ List.replicate entries.length (2 ^ 128 - 1)⟩)) ∧
      (∀ weights, (∃ source : RandomSource,
          (∀ n ∈ source.pending.take entries.length, n < 2 ^ 128 - 1) ∧
            drawnWeights entries.length source = weights) ↔
        weights.length = entries.length ∧ InRange weights) ∧
      ((∀ e ∈ entries, valid e = true) → ∀ weights, passes weights = true) ∧
      (∀ left e right, entries = left ++ e :: right → (∀ f ∈ left ++ right, valid f = true) →
        valid e = false → ∀ weights, weights.length = entries.length → InRange weights →
        passes weights = false) ∧
      (∀ left e right, entries = left ++ e :: right → valid e = false →
        ∀ before c c' after, before.length = left.length →
        InRange (before ++ c :: after) → InRange (before ++ c' :: after) →
        passes (before ++ c :: after) = true → passes (before ++ c' :: after) = true → c = c') := by
  refine ⟨fun e => decide (B.defect e = 0), B.passes entries, ?_, ?_, ?_, ?_, ?_, ?_⟩
  · intro e he
    exact L.verifyPossession_eq (hentries e he)
  · exact L.runBatch_eq hne hentries
  · intro weights
    exact exists_source_iff
  · intro hvalid weights
    exact passes_of_defects_eq_zero fun e he => of_decide_eq_true (hvalid e he)
  · rintro left e right rfl hvalid hbad weights hlength hrange
    have hdefects : ∀ f ∈ left ++ right, B.defect f = 0 := fun f hf =>
      of_decide_eq_true (hvalid f hf)
    exact passes_of_one_defect hdefects (of_decide_eq_false hbad) hlength hrange
  · rintro left e right rfl hbad before c c' after hlength hrange hrange' hpass hpass'
    exact weight_unique (of_decide_eq_false hbad) hlength hrange hrange' hpass hpass'

end Laws

/-- The key two. -/
def keyTwo : Keypair := ⟨⟨2, by decide⟩, by decide⟩

/-- The proof that it makes itself next to one that is off by the generator of the second group, with the
    pairing by logarithms: from every source that keeps to the bound, the batch draws two weights and
    fails. -/
theorem batchVerify_exact_one_spoiled :
    logBackend.suite.prove keyTwo = .ok (logBackend.ownEntry keyTwo).2 ∧
      [logBackend.ownEntry keyTwo, spoil (logBackend.ownEntry keyTwo) generator₂] ≠ [] ∧
      (∀ e ∈ [logBackend.ownEntry keyTwo, spoil (logBackend.ownEntry keyTwo) generator₂],
        IsEntry e) ∧
      ∀ source : RandomSource, (∀ n ∈ source.pending.take 2, n < 2 ^ 128 - 1) →
        logBackend.runBatch
          [logBackend.ownEntry keyTwo, spoil (logBackend.ownEntry keyTwo) generator₂] source =
            (.ok false, ⟨source.pending.drop 2, source.bounds ++ [2 ^ 128 - 1, 2 ^ 128 - 1]⟩) := by
  have hproof := logBackend.prove_eq keyTwo
  have hown : IsEntry (logBackend.ownEntry keyTwo) := logLaws.isEntry_ownEntry keyTwo
  have hspoiled : IsEntry (spoil (logBackend.ownEntry keyTwo) generator₂) :=
    isEntry_spoil hown member_generator₂
  have hdefect : logBackend.defect (logBackend.ownEntry keyTwo) = 0 :=
    logLaws.defect_ownEntry keyTwo
  -- spoiled by the generator, the proof is off by the generator
  have hdefect' : logBackend.defect (spoil (logBackend.ownEntry keyTwo) generator₂) ≠ 0 := by
    rw [defect_spoil _ hown member_generator₂, hdefect, zero_add]
    exact read_generator₂_ne_zero
  refine ⟨hproof, ?_⟩
  generalize logBackend.ownEntry keyTwo = own at *
  generalize spoil own generator₂ = spoiled at *
  have hne : [own, spoiled] ≠ [] := List.cons_ne_nil _ _
  have hentries : ∀ e ∈ [own, spoiled], IsEntry e := by
    simp only [List.mem_cons, List.not_mem_nil, or_false]
    rintro e (rfl | rfl)
    · exact hown
    · exact hspoiled
  obtain ⟨valid, passes, hvalid, hrun, hweights, -, hone, -⟩ := logLaws.batchVerify_exact hne hentries
  have hpass : valid own = true := by
    have halone := hvalid own (by simp)
    rw [logLaws.verifyPossession_eq hown, decide_eq_true hdefect] at halone
    exact (Except.ok.inj halone).symm
  have hfail : valid spoiled = false := by
    have halone := hvalid spoiled (by simp)
    rw [logLaws.verifyPossession_eq hspoiled, decide_eq_false hdefect'] at halone
    exact (Except.ok.inj halone).symm
  refine ⟨hne, hentries, ?_⟩
  intro source hsource
  obtain ⟨hlength, hrange⟩ := (hweights _).mp ⟨source, hsource, rfl⟩
  rw [hrun source, hone [own] spoiled [] rfl (by simpa using hpass) hfail _ hlength hrange]
  rfl

end AggSig.Backend
