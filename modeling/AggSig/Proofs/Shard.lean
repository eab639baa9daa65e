/-
  Shards are the balanced partition of a list, and they can be counted.

  Pieces whose lengths make up that of a list are the list (`flatten_cut`) and have these lengths
  (`map_length_cut`); the nearly equal lengths make up that of the list (`sum_lengths`).  So cutting a
  list into them loses nothing (`flatten_chunks`), and what leaving out the empty pieces does to the
  pieces can be told from the lengths alone (`map_length_chunks`).

  `Balanced` is what is asked of shards.  Chunks have it (`balanced_chunks`) and nothing else does
  (`Balanced.unique`): of two lists of nearly equal lengths, longer ones first, the one with the greater
  head has the greater sum.

  A number of shards is found for every limit that is a whole number or not set (`exists_count`).
-/
import AggSig.RawPoint
import Mathlib.Algebra.BigOperators.Group.List.Basic
import Mathlib.Algebra.Order.BigOperators.Group.List
import Mathlib.Algebra.Order.Group.Nat
import Mathlib.Algebra.Ring.Nat

namespace AggSig.Shard

/-! ## Numbers of workers -/

/-- A limit that is not set or a whole number. -/
def Limit.Whole (limit : Limit) : Prop := limit = .unset ∨ ∃ n, limit = .number (.whole n)

namespace Workers

variable {w : Workers}

/-- Without a limit, or with a whole one, the number of chunks that is wanted is whole. -/
theorem exists_wanted (hw : w.limit.Whole) : ∃ k : Int, w.wanted = .ok (.whole k) := by
  rcases hw with h | ⟨n, h⟩
  · exact ⟨max 1 w.processors, by rw [wanted, h]⟩
  -- zero counts as no limit
  · by_cases hzero : (Number.whole n).isZero = true
    · exact ⟨max 1 w.processors, by rw [wanted, h]; simp [hzero]⟩
    · exact ⟨n, by rw [wanted, h]; simp [hzero]⟩

/-- As many as are wanted, but no more than there are items, and at least one. -/
theorem share_of_wanted {k : Int} (h : w.wanted = .ok (.whole k)) (length : Nat) :
    w.share (.whole length) = .ok (.whole (max 1 (min k length))) := by
  simp only [share, h, bind, Except.bind, pure, Except.pure, Number.least_whole,
    Number.greatest_whole]

theorem count_of_share {length : Nat} {n : Int} (h : w.share (.whole length) = .ok (.whole n)) :
    w.count length = .ok n.toNat := by
  simp only [count, h, bind, Except.bind, pure, Except.pure]

/-- Under such a limit a list of any length has a number of shards. -/
theorem exists_count (hw : w.limit.Whole) (length : Nat) : ∃ n, w.count length = .ok n := by
  obtain ⟨k, hk⟩ := exists_wanted hw
  exact ⟨_, count_of_share (share_of_wanted hk length)⟩

end Workers

/-- Under such a limit every list can be added up in shards. -/
theorem exists_sum {P : Type} (G : GroupLaw P) {w : Workers} (hw : w.limit.Whole) (points : List P)
    (start : P) : ∃ total, sum G w points start = .ok total := by
  obtain ⟨n, hcount⟩ := w.exists_count hw points.length
  exact ⟨_, by rw [sum, shards, hcount]; rfl⟩

/-! ## Cutting -/

/-- Pieces whose lengths make up that of the list are the list, cut. -/
theorem flatten_cut {α : Type} (ns : List Nat) (items : List α) (h : items.length ≤ ns.sum) :
    (cut ns items).flatten = items := by
  induction ns generalizing items with
  | nil =>
    have : items = [] := List.eq_nil_of_length_eq_zero (by simpa using h)
    simp [cut, this]
  | cons n ns ih =>
    have hrest : (items.drop n).length ≤ ns.sum := by
      simp only [List.length_drop, List.sum_cons] at h ⊢
      omega
    simp [cut, ih _ hrest]

/-- Pieces that the list is long enough for have the lengths asked for. -/
theorem map_length_cut {α : Type} (ns : List Nat) (items : List α) (h : ns.sum ≤ items.length) :
    (cut ns items).map List.length = ns := by
  induction ns generalizing items with
  | nil => rfl
  | cons n ns ih =>
    rw [List.sum_cons] at h
    have hpiece : (items.take n).length = n := by
      rw [List.length_take]
      omega
    have hrest : ns.sum ≤ (items.drop n).length := by
      rw [List.length_drop]
      omega
    rw [cut, List.map_cons, hpiece, ih _ hrest]

/-! ## Nearly equal lengths -/

/-- Parts of nearly equal length make up the whole length. -/
theorem sum_lengths {count : Nat} (hcount : 1 ≤ count) (length : Nat) :
    (lengths count length).sum = length := by
  -- the first `n` parts: the remainder is spread over the first of them
  have hsum : ∀ n, n ≤ count →
      ((List.range n).map fun i => length / count + if i < length % count then 1 else 0).sum =
        n * (length / count) + min n (length % count) := by
    intro n
    induction n with
    | zero => intro _; simp
    | succ n ih =>
      intro hn
      rw [List.range_succ, List.map_append, List.sum_append, ih (by omega), Nat.succ_mul]
      simp only [List.map_cons, List.map_nil, List.sum_cons, List.sum_nil]
      split <;> omega
  have hmod : length % count < count := Nat.mod_lt _ hcount
  have hdiv : count * (length / count) + length % count = length := Nat.div_add_mod _ _
  rw [lengths, hsum count (Nat.le_refl count)]
  omega

/-- A part is the quotient, or one more. -/
theorem mem_lengths {count length n : Nat} (hn : n ∈ lengths count length) :
    length / count ≤ n ∧ n ≤ length / count + 1 := by
  obtain ⟨i, -, rfl⟩ := List.mem_map.mp hn
  split <;> omega

/-- No length is above an earlier one or more than one below it. -/
def NearlyEqual (ns : List Nat) : Prop :=
  ns.Pairwise fun earlier later => later ≤ earlier ∧ earlier ≤ later + 1

/-- The lengths of the parts differ by one at most. -/
theorem nearlyEqual_lengths (count length : Nat) : NearlyEqual (lengths count length) := by
  rw [NearlyEqual, lengths, List.pairwise_map]
  apply List.pairwise_lt_range.imp
  intro i j hij
  -- the parts that have one of the remainder come before those that have none
  by_cases hj : j < length % count
  · rw [if_pos hj, if_pos (by omega)]
    omega
  · rw [if_neg hj]
    split <;> omega

/-- Where no length is above one, as many are left without the zeros as they add up to. -/
theorem length_filter_pos {ns : List Nat} (h : ∀ n ∈ ns, n ≤ 1) :
    (ns.filter (0 < ·)).length = ns.sum := by
  induction ns with
  | nil => rfl
  | cons n ns ih =>
    have hn : n ≤ 1 := h n List.mem_cons_self
    have hns := ih fun m hm => h m (List.mem_cons_of_mem n hm)
    obtain rfl | rfl : n = 0 ∨ n = 1 := by omega
    · simpa using hns
    · simp [hns, Nat.add_comm]

/-- There are as many parts, but no more than the length, that are not zero. -/
theorem length_filter_lengths {count : Nat} (hcount : 1 ≤ count) (length : Nat) :
    ((lengths count length).filter (0 < ·)).length = min count length := by
  rcases Nat.lt_or_ge length count with hlt | hge
  · have hle : ∀ n ∈ lengths count length, n ≤ 1 := by
      intro n hn
      have := (mem_lengths hn).2
      rwa [Nat.div_eq_of_lt hlt] at this
    rw [length_filter_pos hle, sum_lengths hcount, Nat.min_eq_right (Nat.le_of_lt hlt)]
  · have hpos : ∀ n ∈ lengths count length, decide (0 < n) = true := fun n hn =>
      decide_eq_true (Nat.lt_of_lt_of_le (Nat.div_pos hge hcount) (mem_lengths hn).1)
    rw [List.filter_eq_self.mpr hpos, lengths, List.length_map, List.length_range,
      Nat.min_eq_left hge]

/-- Of two such lists of the same length, the one with the greater head has the greater sum. -/
theorem NearlyEqual.sum_lt_sum {a b : Nat} {ns ms : List Nat} (hns : NearlyEqual (a :: ns))
    (hms : NearlyEqual (b :: ms)) (hlength : ns.length = ms.length) (hlt : a < b) :
    (a :: ns).sum < (b :: ms).sum := by
  -- the head of the one bounds its tail from above and the tail of the other from below
  have habove : ∀ n ∈ ns, n ≤ a := fun n hn => (List.rel_of_pairwise_cons hns hn).1
  have hbelow : ∀ m ∈ ms, a ≤ m := by
    intro m hm
    have := (List.rel_of_pairwise_cons hms hm).2
    omega
  have htail : ns.sum ≤ ms.sum :=
    calc ns.sum ≤ ns.length • a := List.sum_le_card_nsmul ns a habove
      _ = ms.length • a := by rw [hlength]
      _ ≤ ms.sum := List.card_nsmul_le_sum ms a hbelow
  rw [List.sum_cons, List.sum_cons]
  omega

/-- Nearly equal lengths are known from their number and their sum. -/
theorem NearlyEqual.eq_of_sum_eq {ns ms : List Nat} (hns : NearlyEqual ns) (hms : NearlyEqual ms)
    (hlength : ns.length = ms.length) (hsum : ns.sum = ms.sum) : ns = ms := by
  induction ns generalizing ms with
  | nil => exact (List.eq_nil_of_length_eq_zero hlength.symm).symm
  | cons a ns ih =>
    obtain _ | ⟨b, ms⟩ := ms
    · exact absurd hlength (Nat.succ_ne_zero ns.length)
    · have htail : ns.length = ms.length := Nat.succ.inj hlength
      rcases Nat.lt_trichotomy a b with hlt | rfl | hgt
      · exact absurd hsum (hns.sum_lt_sum hms htail hlt).ne
      · rw [ih (List.Pairwise.of_cons hns) (List.Pairwise.of_cons hms) htail
          (Nat.add_left_cancel hsum)]
      · exact absurd hsum (hms.sum_lt_sum hns htail.symm hgt).ne'

/-! ## Shards -/

section

variable {α : Type} {count : Nat} {items : List α}

/-- Nothing is lost and the order is kept. -/
theorem flatten_chunks (hcount : 1 ≤ count) (items : List α) :
    (chunks count items).flatten = items := by
  rw [chunks, flatten_filter_nonempty, flatten_cut]
  exact Nat.le_of_eq (sum_lengths hcount items.length).symm

/-- What is in a piece is in the list. -/
theorem mem_of_mem_chunks (hcount : 1 ≤ count) {piece : List α} {a : α}
    (hpiece : piece ∈ chunks count items) (ha : a ∈ piece) : a ∈ items := by
  rw [← flatten_chunks hcount items]
  exact List.mem_flatten_of_mem hpiece ha

/-- The lengths of the pieces are the parts that are not zero. -/
theorem map_length_chunks (hcount : 1 ≤ count) (items : List α) :
    (chunks count items).map List.length = (lengths count items.length).filter (0 < ·) := by
  have hnonempty : (fun piece : List α => !piece.isEmpty) = (fun n => decide (0 < n)) ∘ List.length := by
    funext piece
    cases piece <;> rfl
  rw [chunks, hnonempty, ← List.filter_map,
    map_length_cut _ _ (Nat.le_of_eq (sum_lengths hcount items.length))]

/-- The pieces are the list in its order, in `count` pieces of nearly equal length, longer ones first, or
    if it has fewer items than that, in a piece for each. -/
structure Balanced (count : Nat) (items : List α) (pieces : List (List α)) : Prop where
  flatten_eq : pieces.flatten = items
  ne_nil : ∀ piece ∈ pieces, piece ≠ []
  length_eq : pieces.length = min count items.length
  nearlyEqual : NearlyEqual (pieces.map List.length)

/-- Cutting with the lengths of the parts and leaving out the empty ones meets the demands. -/
theorem balanced_chunks (hcount : 1 ≤ count) (items : List α) :
    Balanced count items (chunks count items) where
  flatten_eq := flatten_chunks hcount items
  ne_nil := by
    intro piece hpiece
    simpa using (List.mem_filter.mp hpiece).2
  length_eq := by
    rw [← List.length_map List.length, map_length_chunks hcount, length_filter_lengths hcount]
  nearlyEqual := by
    rw [map_length_chunks hcount]
    exact (nearlyEqual_lengths count items.length).filter _

example : chunks 9 [1, 2] = [[1], [2]] := rfl

/-- A list has only one balanced partition into so many pieces. -/
theorem Balanced.unique {pieces others : List (List α)} (h : Balanced count items pieces)
    (h' : Balanced count items others) : pieces = others := by
  rw [List.eq_iff_flatten_eq]
  refine ⟨h.flatten_eq.trans h'.flatten_eq.symm, ?_⟩
  apply h.nearlyEqual.eq_of_sum_eq h'.nearlyEqual
  · rw [List.length_map, List.length_map, h.length_eq, h'.length_eq]
  · rw [← List.length_flatten, ← List.length_flatten, h.flatten_eq, h'.flatten_eq]

/-- A positive whole number of chunks is cut as told. -/
theorem chunksOf_whole {n : Int} (hn : 1 ≤ n) (items : List α) :
    chunksOf (.whole n) items = .ok (chunks n.toNat items) := by
  -- a division by zero is refused
  have hzero : ¬ (Number.whole n).isZero = true := by
    simp only [Number.isZero, decide_eq_true_eq]
    omega
  rw [chunksOf, if_neg hzero]

end

/-- For every list and every limit of workers that is a whole number or not set: the number of shards is
    the number of workers that are wanted, but no more than there are items, and at least one; and the
    shards are a balanced partition of the list into so many pieces.  Every other positive number of
    pieces gives a balanced partition as well, and the only one there is. -/
theorem shards_balanced {α : Type} {w : Workers} (hw : w.limit.Whole) (items : List α) :
    (∃ k n : Int, w.wanted = .ok (.whole k) ∧ n = max 1 (min k items.length) ∧ 1 ≤ n ∧
      w.share (.whole items.length) = .ok (.whole n) ∧
      ∃ pieces, chunksOf (.whole n) items = .ok pieces ∧ shards w items = .ok pieces ∧
        Balanced n.toNat items pieces) ∧
    ∀ n : Int, 1 ≤ n → ∃ pieces, chunksOf (.whole n) items = .ok pieces ∧
      Balanced n.toNat items pieces ∧ ∀ others, Balanced n.toNat items others → others = pieces := by
  refine ⟨?_, ?_⟩
  · obtain ⟨k, hk⟩ := Workers.exists_wanted hw
    have hshare := Workers.share_of_wanted hk items.length
    -- at least one, whatever number is wanted and however few items there are
    have hn : 1 ≤ max 1 (min k items.length) := Int.le_max_left _ _
    refine ⟨k, _, hk, rfl, hn, hshare, _, chunksOf_whole hn items, ?_, balanced_chunks ?_ items⟩
    · rw [shards, Workers.count_of_share hshare]
      rfl
    · omega
  · intro n hn
    have hcount : 1 ≤ n.toNat := by omega
    have hbalanced := balanced_chunks hcount items
    exact ⟨_, chunksOf_whole hn items, hbalanced, fun others h => h.unique hbalanced⟩

/-- A limit of zero is none: seven items are worth the three processors that there are, and come in pieces
    of three, two and two. -/
theorem shards_balanced_seven :
    Limit.Whole (.number (.whole 0)) ∧
      shards ⟨.number (.whole 0), 3⟩ [1, 2, 3, 4, 5, 6, 7] = .ok [[1, 2, 3], [4, 5], [6, 7]] ∧
      Balanced 3 [1, 2, 3, 4, 5, 6, 7] [[1, 2, 3], [4, 5], [6, 7]] := by
  have hw : Limit.Whole (.number (.whole 0)) := .inr ⟨0, rfl⟩
  have hcut : shards ⟨.number (.whole 0), 3⟩ [1, 2, 3, 4, 5, 6, 7] =
      .ok [[1, 2, 3], [4, 5], [6, 7]] := rfl
  obtain ⟨⟨k, n, hk, hn, -, -, pieces, -, hpieces, hbalanced⟩, -⟩ :=
    shards_balanced (w := ⟨.number (.whole 0), 3⟩) hw [1, 2, 3, 4, 5, 6, 7]
  have hk : Except.ok (Number.whole 3) = Except.ok (Number.whole k) := hk
  cases hk
  cases hn
  rw [hcut] at hpieces
  cases hpieces
  exact ⟨hw, hcut, hbalanced⟩

end AggSig.Shard
