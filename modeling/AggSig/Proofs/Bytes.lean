/-
  Byte strings as big-endian numerals, both ways.

  `Bytes.toNat_ofNat` says that a number below `256 ^ w` is read back from its `w` bytes; here is the
  other direction, `Bytes.ofNat_toNat`: bytes are what is written for the number they spell.

  An encoding is a row of numbers of one width.  `Bytes.spell` writes such a row and `Bytes.numbers`
  reads one, and they are inverse to each other on byte strings of the right length
  (`numbers_spell`, `spell_numbers`).  The byte that an encoding of the identity starts with is the top
  of the first number, and all else is zero (`cons_zeros_eq_spell`).

  Written with the fewest bytes, the number that bytes spell gives the bytes without the zeros in front
  (`shortest_toNat`).
-/
import AggSig.RawPoint
import Mathlib.Data.List.Induction
import Mathlib.Tactic.Ring

namespace AggSig.Bytes

/-! ## One numeral -/

/-- Appended bytes are lower digits: those in front count a power of the base more for each of them. -/
theorem toNat_append (bs cs : Bytes) :
    toNat (bs ++ cs) = toNat bs * 256 ^ cs.length + toNat cs := by
  -- on the appended bytes from the right, where a numeral grows
  induction cs using List.reverseRecOn with
  | nil => simp [toNat]
  | append_singleton cs b ih =>
    rw [← List.append_assoc, toNat_append_single, ih, toNat_append_single, List.length_append,
      List.length_singleton, pow_succ]
    ring

theorem toNat_singleton (b : UInt8) : toNat [b] = b.toNat := by
  simp [toNat]

/-- The first byte of a numeral is its top digit. -/
theorem toNat_cons (b : UInt8) (bs : Bytes) :
    toNat (b :: bs) = b.toNat * 256 ^ bs.length + toNat bs := by
  rw [← toNat_singleton b, ← toNat_append]
  rfl

/-- A numeral is less than the power of the base that its length says. -/
theorem toNat_lt (bs : Bytes) : toNat bs < 256 ^ bs.length := by
  -- the last byte is the lowest digit, so the bound grows by one factor at a time
  induction bs using List.reverseRecOn with
  | nil => decide
  | append_singleton bs b ih =>
    have hb : b.toNat < 256 := b.toNat_lt
    rw [toNat_append_single, List.length_append, List.length_singleton, pow_succ]
    omega

/-- Bytes are what is written for the number they spell. -/
theorem ofNat_toNat {w : Nat} {bs : Bytes} (h : bs.length = w) : ofNat w (toNat bs) = bs := by
  subst h
  -- from the right again: division by the base takes the last byte off
  induction bs using List.reverseRecOn with
  | nil => rfl
  | append_singleton bs b ih =>
    have hb : b.toNat < 256 := b.toNat_lt
    have hdiv : (toNat bs * 256 + b.toNat) / 256 = toNat bs := by omega
    have hmod : (toNat bs * 256 + b.toNat) % 256 = b.toNat := by omega
    rw [List.length_append, List.length_singleton, ofNat, toNat_append_single, hdiv, hmod, ih,
      UInt8.ofNat_toNat]

/-- Zeros spell zero. -/
theorem toNat_zeros (w : Nat) : toNat (zeros w) = 0 := by
  induction w with
  | zero => rfl
  | succ w ih =>
    have hzeros : zeros (w + 1) = 0 :: zeros w := rfl
    rw [hzeros, toNat_cons, ih, UInt8.toNat_zero, zero_mul]

theorem length_zeros (w : Nat) : (zeros w).length = w := List.length_replicate

theorem ofNat_zero (w : Nat) : ofNat w 0 = zeros w := by
  have h := ofNat_toNat (length_zeros w)
  rwa [toNat_zeros] at h

/-! ## Rows of numerals -/

/-- The numbers, written one after the other in `w` bytes each. -/
def spell (w : Nat) (ns : List Nat) : Bytes := ns.flatMap (ofNat w)

/-- The numbers that the first `count` pieces of `w` bytes spell. -/
def numbers (w count : Nat) (bs : Bytes) : List Nat := (pieces w count bs).map toNat

@[simp] theorem spell_nil (w : Nat) : spell w [] = [] := rfl

@[simp] theorem spell_cons (w n : Nat) (ns : List Nat) :
    spell w (n :: ns) = ofNat w n ++ spell w ns := rfl

theorem spell_append (w : Nat) (ns ms : List Nat) :
    spell w (ns ++ ms) = spell w ns ++ spell w ms := List.flatMap_append

@[simp] theorem numbers_zero (w : Nat) (bs : Bytes) : numbers w 0 bs = [] := rfl

/-- The first number is read off the first piece, the others off what is left. -/
theorem numbers_succ (w count : Nat) (bs : Bytes) :
    numbers w (count + 1) bs = toNat (bs.take w) :: numbers w count (bs.drop w) := rfl

@[simp] theorem length_numbers (w count : Nat) (bs : Bytes) :
    (numbers w count bs).length = count := by
  induction count generalizing bs with
  | zero => rfl
  | succ count ih => rw [numbers_succ, List.length_cons, ih]

/-- Every number takes its width. -/
@[simp] theorem length_spell (w : Nat) (ns : List Nat) : (spell w ns).length = w * ns.length := by
  induction ns with
  | nil => rfl
  | cons n ns ih =>
    rw [spell_cons, List.length_append, length_ofNat, ih, List.length_cons, Nat.mul_succ,
      Nat.add_comm]

/-- Numbers that fit the width are read back. -/
theorem numbers_spell {w : Nat} {ns : List Nat} (h : ∀ n ∈ ns, n < 256 ^ w) :
    numbers w ns.length (spell w ns) = ns := by
  induction ns with
  | nil => rfl
  | cons n ns ih =>
    have hlength : (ofNat w n).length = w := length_ofNat w n
    have hn : n < Nat.pow 256 w := h n List.mem_cons_self
    have hrest := ih fun m hm => h m (List.mem_cons_of_mem n hm)
    rw [List.length_cons, numbers_succ, spell_cons, List.take_left' hlength,
      List.drop_left' hlength, toNat_ofNat w n hn, hrest]

/-- Bytes are what is written for the numbers they spell. -/
theorem spell_numbers {w count : Nat} {bs : Bytes} (h : bs.length = w * count) :
    spell w (numbers w count bs) = bs := by
  induction count generalizing bs with
  | zero => exact (List.eq_nil_of_length_eq_zero h).symm
  | succ count ih =>
    have hfirst : (bs.take w).length = w := by
      rw [List.length_take, h, Nat.mul_succ]
      omega
    have hrest : (bs.drop w).length = w * count := by
      rw [List.length_drop, h, Nat.mul_succ]
      omega
    rw [numbers_succ, spell_cons, ofNat_toNat hfirst, ih hrest, List.take_append_drop]

/-- A row of zeros is written as zeros. -/
theorem spell_replicate_zero (w count : Nat) :
    spell w (List.replicate count 0) = zeros (w * count) := by
  induction count with
  | zero => rfl
  | succ count ih =>
    -- the zeros of the first number, and those of the others
    rw [List.replicate_succ, spell_cons, ofNat_zero, ih, zeros, zeros, zeros,
      List.replicate_append_replicate, Nat.mul_succ, Nat.add_comm]

/-- A byte with nothing but zeros after it: a number that has this byte on top, and zeros. -/
theorem cons_zeros_eq_spell (b : UInt8) (w count : Nat) :
    b :: zeros ((w + 1) * (count + 1) - 1) =
      spell (w + 1) (b.toNat * 256 ^ w :: List.replicate count 0) := by
  have htop : ofNat (w + 1) (b.toNat * 256 ^ w) = b :: zeros w := by
    have hnat : toNat (b :: zeros w) = b.toNat * 256 ^ w := by
      rw [toNat_cons, toNat_zeros, length_zeros, Nat.add_zero]
    rw [← hnat]
    exact ofNat_toNat (congrArg Nat.succ (length_zeros w))
  have hlength : (w + 1) * (count + 1) - 1 = w + (w + 1) * count := by
    rw [Nat.mul_succ]
    omega
  rw [spell_cons, htop, spell_replicate_zero, hlength, List.cons_append, zeros, zeros, zeros,
    List.replicate_append_replicate]

/-! ## The fewest bytes -/

/-- A number has as many digits as the powers of the base that it lies between say. -/
theorem digitCount_eq_succ_iff {n k : Nat} :
    digitCount n = k + 1 ↔ 256 ^ k ≤ n ∧ n < 256 ^ (k + 1) := by
  have hpow : ∀ m, 256 ^ m = 2 ^ (8 * m) := fun m => by rw [Nat.pow_mul]
  rw [digitCount, hpow, hpow]
  by_cases hzero : n = 0
  · have hpos : 0 < 2 ^ (8 * k) := Nat.two_pow_pos _
    rw [if_pos hzero]
    omega
  · rw [if_neg hzero, ← Nat.le_log2 hzero, ← Nat.log2_lt hzero]
    omega

/-- Only a first byte of zero leaves a number that fewer bytes can spell. -/
theorem le_toNat_cons_iff {b : UInt8} {bs : Bytes} : 256 ^ bs.length ≤ toNat (b :: bs) ↔ b ≠ 0 := by
  rw [toNat_cons]
  constructor
  · rintro hle rfl
    have hlt := toNat_lt bs
    rw [UInt8.toNat_zero, Nat.zero_mul, Nat.zero_add] at hle
    omega
  · intro hb
    have hpos : 0 < b.toNat := by
      rw [Nat.pos_iff_ne_zero]
      exact fun h => hb (UInt8.toNat_inj.mp h)
    exact Nat.le_add_right_of_le (Nat.le_mul_of_pos_left _ hpos)

/-- Bytes that do not start with a zero are the fewest that spell their number. -/
theorem shortest_toNat_cons {b : UInt8} (hb : b ≠ 0) (bs : Bytes) :
    shortest (toNat (b :: bs)) = b :: bs := by
  have hcount : digitCount (toNat (b :: bs)) = bs.length + 1 :=
    digitCount_eq_succ_iff.mpr ⟨le_toNat_cons_iff.mpr hb, toNat_lt (b :: bs)⟩
  rw [shortest, hcount]
  exact ofNat_toNat List.length_cons

/-- Written with the fewest bytes, the number of a byte string gives the bytes without the zeros in front.
    -/
theorem shortest_toNat (bs : Bytes) : shortest (toNat bs) = bs.dropWhile (· = 0) := by
  -- a zero in front adds nothing to the number; the first other byte ends the search
  induction bs with
  | nil => rfl
  | cons b bs ih =>
    by_cases hb : b = 0
    · subst hb
      rw [List.dropWhile_cons_of_pos (by decide), ← ih, toNat_cons, UInt8.toNat_zero, Nat.zero_mul,
        Nat.zero_add]
    · rw [List.dropWhile_cons_of_neg (by simpa using hb), shortest_toNat_cons hb]

end AggSig.Bytes
