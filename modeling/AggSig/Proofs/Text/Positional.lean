/-
  Numerals, and what they spell.

  Characters spell a number if they are digits of the alphabet, each counting for its place in it and the
  last one counting once (`Spells`).  That is what is read (`value?_eq_some_iff`), and what has another
  character in it is not read at all (`value?_eq_none_iff`).

  All that spells a number are its digits behind zeros (`Spells.exists_eq`, `spells_iff_dropWhile`), over
  every alphabet of two digits or more that repeats none.  So the numeral that is written for a number, which has no zero in front
  unless it is the one digit of zero, is read as that number (`value?_numeral`) and is the shortest that
  spells it (`shortest_numeral`).
-/
import AggSig.RawPoint
import Mathlib.Algebra.Ring.Nat
import Mathlib.Data.List.GetD
import Mathlib.Data.List.Induction
import Mathlib.Data.List.Nodup
import Mathlib.Data.List.TakeWhile
import Mathlib.Data.Nat.Digits.Lemmas

namespace AggSig.Positional

/-- What numerals can be written in: two digits or more, none of them repeated. -/
structure Digits (alphabet : List Char) : Prop where
  nodup : alphabet.Nodup
  two_le : 2 ≤ alphabet.length

/-- The value of a numeral whose digits follow on those of a number. -/
def readOnto (alphabet : List Char) (n : Nat) (digits : List Char) : Option Nat :=
  digits.foldlM (fun n c => (alphabet.idxOf? c).map (n * alphabet.length + ·)) n

theorem value?_eq_readOnto (alphabet digits : List Char) :
    value? alphabet digits = readOnto alphabet 0 digits := rfl

/-- The characters are digits of the alphabet and spell a number: each counts for its place in the
    alphabet, and the last one counts once. -/
structure Spells (alphabet digits : List Char) (n : Nat) : Prop where
  mem : ∀ c ∈ digits, c ∈ alphabet
  ofDigits_eq : Nat.ofDigits alphabet.length (digits.reverse.map (alphabet.idxOf ·)) = n

variable {alphabet digits : List Char} {n : Nat}

/-! ## What is read -/

theorem idxOf?_of_mem {c : Char} (hc : c ∈ alphabet) :
    alphabet.idxOf? c = some (alphabet.idxOf c) := by
  cases h : alphabet.idxOf? c with
  | none => exact absurd hc (List.idxOf?_eq_none_iff.mp h)
  | some i => rw [List.idxOf_eq_getD_idxOf?, h, Option.getD_some]

/-- One digit more behind the others. -/
theorem spells_append_single {c : Char} :
    Spells alphabet (digits ++ [c]) n ↔
      ∃ m, Spells alphabet digits m ∧ c ∈ alphabet ∧ m * alphabet.length + alphabet.idxOf c = n := by
  -- the last digit is the lowest one
  have hvalue : Nat.ofDigits alphabet.length ((digits ++ [c]).reverse.map (alphabet.idxOf ·)) =
      Nat.ofDigits alphabet.length (digits.reverse.map (alphabet.idxOf ·)) * alphabet.length +
        alphabet.idxOf c := by
    rw [List.reverse_append, List.reverse_singleton, List.singleton_append, List.map_cons,
      Nat.ofDigits_cons, Nat.mul_comm, Nat.add_comm]
  constructor
  · rintro ⟨hmem, rfl⟩
    exact ⟨_, ⟨fun d hd => hmem d (List.mem_append_left _ hd), rfl⟩,
      hmem c (List.mem_append_right _ (List.mem_singleton_self c)), hvalue.symm⟩
  · rintro ⟨_, ⟨hmem, rfl⟩, hc, rfl⟩
    refine ⟨fun d hd => ?_, hvalue⟩
    rcases List.mem_append.mp hd with hd | hd
    · exact hmem d hd
    · rwa [List.mem_singleton.mp hd]

/-- What is read are digits, as the number that they spell. -/
theorem value?_eq_some_iff : value? alphabet digits = some n ↔ Spells alphabet digits n := by
  -- on the digits from the right, where a numeral grows
  induction digits using List.reverseRecOn generalizing n with
  | nil =>
    constructor
    · intro h
      cases h
      exact ⟨fun _ hc => (nomatch hc), rfl⟩
    · rintro ⟨-, rfl⟩
      rfl
  | append_singleton digits c ih =>
    rw [value?_append_single, Option.bind_eq_some_iff, spells_append_single]
    refine exists_congr fun m => and_congr ih ?_
    by_cases hc : c ∈ alphabet
    · rw [idxOf?_of_mem hc, Option.map_some, Option.some.injEq, and_iff_right hc]
    · rw [List.idxOf?_eq_none_iff.mpr hc]
      exact iff_of_false (fun h => nomatch h) (fun h => hc h.1)

/-- What is not read has a character that is no digit. -/
theorem value?_eq_none_iff : value? alphabet digits = none ↔ ∃ c ∈ digits, c ∉ alphabet := by
  constructor
  · intro h
    by_contra hnot
    have hmem : ∀ c ∈ digits, c ∈ alphabet := fun c hc => by_contra fun hforeign => hnot ⟨c, hc, hforeign⟩
    rw [value?_eq_some_iff.mpr ⟨hmem, rfl⟩] at h
    cases h
  · rintro ⟨c, hc, hforeign⟩
    cases h : value? alphabet digits with
    | none => rfl
    | some n => exact absurd ((value?_eq_some_iff.mp h).mem c hc) hforeign

/-! ## Zeros in front -/

/-- The digits of a number without a zero in front: none for zero. -/
def significant (alphabet : List Char) (n : Nat) : List Char :=
  ((Nat.digits alphabet.length n).map (alphabet.getD · ' ')).reverse

theorem significant_zero : significant alphabet 0 = [] := by
  rw [significant, Nat.digits_zero]
  rfl

/-- Zeros in front of the digits stand above the places of the number. -/
theorem zeros_append_significant (alphabet : List Char) (k n : Nat) :
    List.replicate k (alphabet.getD 0 ' ') ++ significant alphabet n =
      ((Nat.digits alphabet.length n ++ List.replicate k 0).map (alphabet.getD · ' ')).reverse := by
  rw [List.map_append, List.map_replicate, List.reverse_append, List.reverse_replicate, significant]

/-- A digit has its place in the alphabet. -/
theorem idxOf_getD (hnodup : alphabet.Nodup) {i : Nat} (hi : i < alphabet.length) :
    alphabet.idxOf (alphabet.getD i ' ') = i := by
  rw [List.getD_eq_getElem _ _ hi]
  exact hnodup.idxOf_getElem i hi

/-- Zeros in front change nothing. -/
theorem spells_zeros_append (h : Digits alphabet) (k n : Nat) :
    Spells alphabet (List.replicate k (alphabet.getD 0 ' ') ++ significant alphabet n) n := by
  -- zeros in front are zeros on top of the digits of the number
  have hplaces : ∀ i ∈ Nat.digits alphabet.length n ++ List.replicate k 0, i < alphabet.length := by
    intro i hi
    rcases List.mem_append.mp hi with hi | hi
    · exact Nat.digits_lt_base h.two_le hi
    · rw [List.eq_of_mem_replicate hi]
      exact Nat.lt_of_lt_of_le (by decide) h.two_le
  rw [zeros_append_significant]
  constructor
  · intro c hc
    obtain ⟨i, hi, rfl⟩ := List.mem_map.mp (List.mem_reverse.mp hc)
    rw [List.getD_eq_getElem _ _ (hplaces i hi)]
    exact List.getElem_mem (hplaces i hi)
  -- digits are at their own places, so the places come back
  · have hback : (Nat.digits alphabet.length n ++ List.replicate k 0).map
        ((alphabet.idxOf ·) ∘ (alphabet.getD · ' ')) = Nat.digits alphabet.length n ++ List.replicate k 0 :=
      (List.map_congr_left fun i hi => idxOf_getD h.nodup (hplaces i hi)).trans (List.map_id _)
    rw [List.reverse_reverse, List.map_map, hback, Nat.ofDigits_append_replicate_zero,
      Nat.ofDigits_digits]

/-- All that spells a number are its digits behind zeros. -/
theorem Spells.exists_eq (h : Digits alphabet) (hdigits : Spells alphabet digits n) :
    ∃ k, digits = List.replicate k (alphabet.getD 0 ' ') ++ significant alphabet n := by
  obtain ⟨hmem, rfl⟩ := hdigits
  have hplace : ∀ c ∈ digits.reverse, alphabet.idxOf c < alphabet.length := fun c hc =>
    List.idxOf_lt_length_of_mem (hmem c (List.mem_reverse.mp hc))
  obtain ⟨places, hplaces⟩ : ∃ places, places = digits.reverse.map (alphabet.idxOf ·) := ⟨_, rfl⟩
  have hlt : ∀ i ∈ places, i < alphabet.length := by
    rw [hplaces]
    intro i hi
    obtain ⟨c, hc, rfl⟩ := List.mem_map.mp hi
    exact hplace c hc
  have hback : places.map (alphabet.getD · ' ') = digits.reverse := by
    rw [hplaces, List.map_map]
    refine (List.map_congr_left fun c hc => ?_).trans (List.map_id _)
    exact (List.getD_eq_getElem _ _ (hplace c hc)).trans (List.getElem_idxOf (hplace c hc))
  -- the places of the digits are those of the number, filled up with zeros at the top
  have hfilled := (Nat.setInvOn_digitsAppend_ofDigits h.two_le places.length).1 ⟨rfl, hlt⟩
  rw [Nat.digitsAppend] at hfilled
  refine ⟨places.length - (Nat.digits alphabet.length (Nat.ofDigits alphabet.length places)).length, ?_⟩
  rw [← hplaces, zeros_append_significant, hfilled, hback, List.reverse_reverse]

/-- The top digit of a number is not zero. -/
theorem head?_significant (h : Digits alphabet) (n : Nat) :
    (significant alphabet n).head? ≠ some (alphabet.getD 0 ' ') := by
  intro hhead
  rw [significant, List.head?_reverse, List.getLast?_map, Option.map_eq_some_iff] at hhead
  obtain ⟨top, htop, hzero⟩ := hhead
  obtain ⟨hne, rfl⟩ := List.mem_getLast?_eq_getLast htop
  have hlt := Nat.digits_lt_base h.two_le (List.getLast_mem hne)
  have hpos : 0 < alphabet.length := Nat.lt_of_lt_of_le (by decide) h.two_le
  have htop_zero : (Nat.digits alphabet.length n).getLast hne = 0 := by
    rw [← idxOf_getD h.nodup hlt, hzero, idxOf_getD h.nodup hpos]
  exact Nat.getLast_digit_ne_zero _ (fun hn => hne (by rw [hn, Nat.digits_zero])) htop_zero

/-- What spells a number are the characters that are its digits once the zeros in front are taken off. -/
theorem spells_iff_dropWhile (h : Digits alphabet) :
    Spells alphabet digits n ↔ digits.dropWhile (· = alphabet.getD 0 ' ') = significant alphabet n := by
  constructor
  · intro hdigits
    -- the first significant digit is where the dropping of zeros ends
    obtain ⟨k, rfl⟩ := hdigits.exists_eq h
    rw [List.dropWhile_append_of_pos fun c hc => decide_eq_true (List.eq_of_mem_replicate hc)]
    cases hs : significant alphabet n with
    | nil => rfl
    | cons c rest =>
      have hc : c ≠ alphabet.getD 0 ' ' := fun hzero => head?_significant h n (by rw [hs, hzero]; rfl)
      exact List.dropWhile_cons_of_neg (by simpa using hc)
  · intro hdrop
    have hzeros : ∀ c ∈ digits.takeWhile (· = alphabet.getD 0 ' '), c = alphabet.getD 0 ' ' := by
      intro c hc
      simpa using List.mem_takeWhile_imp hc
    rw [← List.takeWhile_append_dropWhile (p := (· = alphabet.getD 0 ' ')) (l := digits), hdrop,
      List.eq_replicate_iff.mpr ⟨rfl, hzeros⟩]
    exact spells_zeros_append h _ n

/-! ## What is written -/

/-- The digits of a number are put in front of those written already. -/
theorem digitsOnto_eq (h : Digits alphabet) (fuel n : Nat) (written : List Char)
    (hfuel : n < 2 ^ fuel) : digitsOnto alphabet fuel n written = significant alphabet n ++ written := by
  have htwo := h.two_le
  -- on the fuel; one more digit is written in every round, and the number is divided
  induction fuel generalizing n written with
  | zero =>
    obtain rfl : n = 0 := by simpa using hfuel
    rw [significant_zero]
    rfl
  | succ fuel ih =>
    rw [digitsOnto]
    by_cases hzero : n = 0
    · rw [if_pos hzero, hzero, significant_zero]
      rfl
    · have hdiv : n / alphabet.length < 2 ^ fuel := by
        have hhalf : n / alphabet.length ≤ n / 2 := Nat.div_le_div_left htwo (by decide)
        rw [Nat.pow_succ] at hfuel
        omega
      rw [if_neg hzero, ih _ _ hdiv, significant, significant,
        Nat.digits_def' htwo (Nat.pos_of_ne_zero hzero), List.map_cons, List.reverse_cons,
        List.append_assoc, List.singleton_append]

/-- The numeral of a number other than zero has no zero in front. -/
theorem numeral_of_ne_zero (h : Digits alphabet) (hn : n ≠ 0) :
    numeral alphabet n = significant alphabet n := by
  rw [numeral, if_neg hn, digitsOnto_eq h _ _ _ Nat.lt_log2_self, List.append_nil]

/-- The numeral of zero is the one digit for it. -/
theorem numeral_zero (h : Digits alphabet) : numeral alphabet 0 = [alphabet.getD 0 ' '] := by
  have htwo := h.two_le
  cases alphabet with
  | nil => simp at htwo
  | cons c rest => rfl

/-- The numeral of a number spells it. -/
theorem spells_numeral (h : Digits alphabet) (n : Nat) : Spells alphabet (numeral alphabet n) n := by
  by_cases hn : n = 0
  · have hzero := spells_zeros_append h 1 0
    rw [significant_zero] at hzero
    rw [hn, numeral_zero h]
    exact hzero
  · rw [numeral_of_ne_zero h hn]
    exact spells_zeros_append h 0 n

/-- The shortest numeral of a number is read as that number. -/
theorem value?_numeral (h : Digits alphabet) (n : Nat) :
    value? alphabet (numeral alphabet n) = some n :=
  value?_eq_some_iff.mpr (spells_numeral h n)

/-- A numeral is made of the digits of its alphabet. -/
theorem mem_of_mem_numeral (h : Digits alphabet) {c : Char} (hc : c ∈ numeral alphabet n) :
    c ∈ alphabet :=
  (spells_numeral h n).mem c hc

/-- The digits are the fewest that spell a number, and one at least. -/
structure Shortest (alphabet digits : List Char) (n : Nat) : Prop where
  spells : Spells alphabet digits n
  ne_nil : digits ≠ []
  length_le : ∀ others, others ≠ [] → Spells alphabet others n → digits.length ≤ others.length

/-- No other digits that spell the number are fewer. -/
theorem shortest_numeral (h : Digits alphabet) (n : Nat) :
    Shortest alphabet (numeral alphabet n) n := by
  refine ⟨spells_numeral h n, ?_, fun others hne hothers => ?_⟩
  · by_cases hn : n = 0
    · rw [hn, numeral_zero h]
      exact List.cons_ne_nil _ _
    · rw [numeral_of_ne_zero h hn]
      intro hnil
      rw [significant, List.reverse_eq_nil_iff, List.map_eq_nil_iff, Nat.digits_eq_nil_iff_eq_zero] at hnil
      exact hn hnil
  -- what else spells the number is its numeral with zeros in front
  · by_cases hn : n = 0
    · rw [hn, numeral_zero h]
      exact List.length_pos_of_ne_nil hne
    · obtain ⟨k, rfl⟩ := hothers.exists_eq h
      rw [numeral_of_ne_zero h hn, List.length_append]
      exact Nat.le_add_left _ _

end AggSig.Positional
