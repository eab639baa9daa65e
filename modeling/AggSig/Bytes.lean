/-
  Byte strings, and the big-endian numbers they spell.

  A byte string is a list of bytes.  `Bytes.toNat` reads it as a number in base 256, most significant
  byte first; `Bytes.ofNat w n` writes the last `w` base-256 digits of `n`, and `Bytes.shortest n`
  writes `n` with as few bytes as it takes (none for zero).

  The main statements: `Bytes.length_ofNat` (the width asked for is the width given) and
  `Bytes.toNat_ofNat` (a number below `256 ^ w` survives the trip).
-/

namespace AggSig

/-- A byte string. -/
abbrev Bytes := List UInt8

namespace Bytes

/-- The number that the bytes spell, most significant byte first. -/
def toNat (bs : Bytes) : Nat := bs.foldl (fun n b => n * 256 + b.toNat) 0

/-- The last `w` base-256 digits of a number, most significant first. -/
def ofNat : Nat → Nat → Bytes
  | 0, _ => []
  | w + 1, n => ofNat w (n / 256) ++ [UInt8.ofNat (n % 256)]

/-- How many base-256 digits a number has: none for zero. -/
def digitCount (n : Nat) : Nat := if n = 0 then 0 else n.log2 / 8 + 1

/-- The fewest bytes that spell a number. -/
def shortest (n : Nat) : Bytes := ofNat (digitCount n) n

/-- `w` zero bytes. -/
def zeros (w : Nat) : Bytes := List.replicate w 0

/-- The first `count` pieces of `w` bytes each. -/
def pieces (w : Nat) : (count : Nat) → Bytes → List Bytes
  | 0, _ => []
  | count + 1, bs => bs.take w :: pieces w count (bs.drop w)

/-- The bytes of a text in ASCII: a character's code, cut to eight bits. -/
def ofAscii (s : String) : Bytes := s.toList.map fun c => UInt8.ofNat c.toNat

/-! ## What the conversions keep -/

@[simp] theorem length_ofNat (w n : Nat) : (ofNat w n).length = w := by
  induction w generalizing n with
  | zero => rfl
  | succ w ih => simp [ofNat, ih]

@[simp] theorem toNat_append_single (bs : Bytes) (b : UInt8) :
    toNat (bs ++ [b]) = toNat bs * 256 + b.toNat := by
  simp [toNat]

/-- A number that fits the width is read back. -/
theorem toNat_ofNat (w n : Nat) (h : n < Nat.pow 256 w) : toNat (ofNat w n) = n := by
  induction w generalizing n with
  | zero =>
    have h0 : n = 0 := by simpa using h
    subst h0
    rfl
  | succ w ih =>
    have hd : n / 256 < Nat.pow 256 w := by
      rw [Nat.div_lt_iff_lt_mul (by decide)]
      simpa [Nat.pow_succ] using h
    have hb : (UInt8.ofNat (n % 256)).toNat = n % 256 := by
      rw [UInt8.toNat_ofNat']
      exact Nat.mod_eq_of_lt (by omega)
    rw [ofNat, toNat_append_single, ih _ hd, hb]
    omega

example : toNat [0x01, 0x02] = 258 := by decide
example : ofNat 4 258 = [0, 0, 1, 2] := by decide
example : shortest 258 = [1, 2] ∧ shortest 0 = [] := by decide

end Bytes

end AggSig
