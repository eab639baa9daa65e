/-
  Wire values read from numerals.

  Ten first characters select an encoding that takes the characters after it for the digits of one number
  (`Numeration.all`).  The number is what is read: its bytes make a wire value exactly if they are as many as
  the width, so that it lies between two powers of 256, and a character that is no digit makes none
  (`readWire_numeral`).

  Zeros in front do not change the number.  So a wire value is read from all texts that are its print with
  further ones behind the `z`, as long as its first byte is not zero, and in base 58 from no others
  (`readWire_base58_iff`).
-/
import AggSig.Proofs.Text.Multibase
import AggSig.Proofs.Text.Utf8

namespace AggSig

open Positional (Spells Shortest)

namespace Multibase

/-! ## Characters that are no digits -/

/-- A character outside ASCII has a byte outside ASCII. -/
theorem exists_le_of_mem_utf8EncodeChar {c : Char} (hc : 128 ≤ c.toNat) :
    ∃ b ∈ String.utf8EncodeChar c, 128 ≤ b.toNat := by
  have hlater : 128 ≤ (UInt8.ofNat (c.toNat % 64 + 128)).toNat := by
    rw [Utf8.toNat_later]
    omega
  refine ⟨UInt8.ofNat (c.toNat % 64 + 128), ?_, hlater⟩
  rw [String.utf8EncodeChar]
  simp only [Char.toNat_val]
  rw [if_neg (by omega)]
  split
  · simp
  · split <;> simp

/-- Digits in ASCII are looked up alike in the bytes of a text and in its characters. -/
theorem value?_chars_encode {alphabet : List Char} (halphabet : IsAscii alphabet) (cs : List Char) :
    Positional.value? alphabet (chars (Utf8.encode cs)) = Positional.value? alphabet cs := by
  -- in ASCII both are one text; otherwise neither is read, for a character and for one of its bytes
  by_cases hcs : IsAscii cs
  · rw [chars_encode hcs]
  · obtain ⟨c, hc, hhigh⟩ : ∃ c ∈ cs, 128 ≤ c.toNat := by
      rw [IsAscii] at hcs
      push Not at hcs
      exact hcs
    obtain ⟨b, hb, hbyte⟩ := exists_le_of_mem_utf8EncodeChar hhigh
    have hforeign : ∀ d : Char, 128 ≤ d.toNat → d ∉ alphabet := fun d hd hmem =>
      Nat.not_lt.mpr hd (halphabet d hmem)
    have hchar : (Char.ofNat b.toNat).toNat = b.toNat := by
      have hvalid : b.toNat.isValidChar := Or.inl (Nat.lt_of_lt_of_le b.toNat_lt (by decide))
      rw [Char.ofNat, dif_pos hvalid]
      rfl
    rw [Positional.value?_eq_none_iff.mpr ⟨c, hc, hforeign c hhigh⟩]
    refine Positional.value?_eq_none_iff.mpr ⟨Char.ofNat b.toNat, ?_, hforeign _ (by rwa [hchar])⟩
    exact List.mem_map_of_mem (List.mem_flatMap.mpr ⟨c, hc, hb⟩)

/-! ## The positional encodings -/

/-- A way to write a number: the character that selects it, the digits, and what is looked up among them for
    a character of the text. -/
structure Numeration where
  code : Char
  digits : List Char
  fold : Char → List Char

namespace Numeration

/-- The numeration that looks up every character as it is. -/
def plain (code : Char) (digits : List Char) : Numeration := ⟨code, digits, fun c => [c]⟩

/-- Base 16, with letters of either case for those of the lower case. -/
def hexadecimal : Numeration := ⟨'f', "0123456789abcdef".toList, foldLower⟩

/-- Base 58 with upper case before lower case, as in print. -/
def printed : Numeration := plain 'z' "123456789ABCDEFGHJKLMNPQRSTUVWXYZabcdefghijkmnopqrstuvwxyz".toList

/-- Base 2, 8, 10, 16, 32, 36 and 58. -/
def all : List Numeration :=
  [plain '0' "01".toList,
   plain '7' "01234567".toList,
   plain '9' "0123456789".toList,
   hexadecimal,
   ⟨'F', "0123456789ABCDEF".toList, foldUpper⟩,
   plain 'h' "ybndrfg8ejkmcpqxot1uwisza345h769".toList,
   plain 'k' "0123456789abcdefghijklmnopqrstuvwxyz".toList,
   plain 'K' "0123456789ABCDEFGHIJKLMNOPQRSTUVWXYZ".toList,
   printed,
   plain 'Z' "123456789abcdefghijkmnopqrstuvwxyzABCDEFGHJKLMNPQRSTUVWXYZ".toList]

variable (N : Numeration)

/-- The numeral that the characters of a text are looked up as. -/
def folded (rest : List Char) : List Char := rest.flatMap N.fold

/-- The text that selects the numeration, with the given characters behind. -/
def text (rest : List Char) : String := String.ofList (N.code :: rest)

/-- Such a text is read as a numeral. -/
def IsRead : Prop := ∀ rest, decode (Utf8.encode (N.code :: rest)) = readPositional N.digits (N.folded rest)

theorem folded_plain (code : Char) (digits rest : List Char) : (plain code digits).folded rest = rest :=
  List.flatMap_singleton' rest

/-- An encoding with digits of its own reads the bytes behind its character, and these are looked up like
    characters. -/
theorem isRead_plain {code : Char} {digits : List Char} (hcode : code.toNat < 128)
    (hselects : Encoding.ofCode (UInt8.ofNat code.toNat) = some (.positional digits))
    (hdigits : IsAscii digits) : (plain code digits).IsRead := by
  intro rest
  rw [folded_plain]
  show decode (Utf8.encode (code :: rest)) = readPositional digits rest
  rw [decode_encode_cons hcode hselects]
  show readPositional digits (chars (Utf8.encode rest)) = _
  rw [readPositional, value?_chars_encode hdigits]
  rfl

/-- Text is needed where characters are folded. -/
theorem readText_encode (cs : List Char) : readText (Utf8.encode cs) = .ok cs := by
  rw [readText, Utf8.decode_encode]
  rfl

/-- Base 16 reads the characters, in the case of its digits. -/
theorem isRead_hexadecimal {code : Char} {digits : List Char} {fold : Char → List Char} {upper : Bool}
    (hcode : code.toNat < 128)
    (hselects : Encoding.ofCode (UInt8.ofNat code.toNat) = some (.hexadecimal upper))
    (hread : ∀ data, (Encoding.hexadecimal upper).read data = do
      let cs ← readText data
      readPositional digits (cs.flatMap fold)) : Numeration.IsRead ⟨code, digits, fold⟩ := by
  intro rest
  rw [decode_encode_cons hcode hselects, hread, readText_encode]
  rfl

/-- All ten are read as numerals. -/
theorem isRead_of_mem : ∀ N ∈ all, N.IsRead := by
  -- one goal for each of them
  simp only [all, List.forall_mem_cons, List.not_mem_nil, IsEmpty.forall_iff, implies_true, and_true]
  exact ⟨isRead_plain (by decide) rfl (by decide), isRead_plain (by decide) rfl (by decide),
    isRead_plain (by decide) rfl (by decide), isRead_hexadecimal (by decide) rfl fun _ => rfl,
    isRead_hexadecimal (by decide) rfl fun _ => rfl, isRead_plain (by decide) rfl (by decide),
    isRead_plain (by decide) rfl (by decide), isRead_plain (by decide) rfl (by decide),
    isRead_plain (by decide) rfl (by decide), isRead_plain (by decide) rfl (by decide)⟩

end Numeration

end Multibase

open Multibase

/-! ## Wire values -/

namespace Wire

/-- The wire value whose bytes spell a number. -/
def ofNumber (f : Family) (form : Form) (n : Nat) : Wire :=
  ⟨f, form, Bytes.ofNat (f.width form) n, Bytes.length_ofNat _ n⟩

theorem ofNumber_toNat (w : Wire) : ofNumber w.family w.form (Bytes.toNat w.bytes) = w := by
  obtain ⟨f, form, bytes, hlength⟩ := w
  simp only [ofNumber, Bytes.ofNat_toNat hlength]

theorem toNat_ofNumber {f : Family} {form : Form} {n : Nat} (hn : n < 256 ^ f.width form) :
    Bytes.toNat (ofNumber f form n).bytes = n := Bytes.toNat_ofNat _ n hn

theorem width_eq (f : Family) (form : Form) : f.width form = f.width form - 1 + 1 := by
  cases f <;> cases form <;> rfl

/-- A number has as many bytes as a wire value exactly between two powers of 256. -/
theorem digitCount_eq_width_iff {f : Family} {form : Form} {n : Nat} :
    Bytes.digitCount n = f.width form ↔ 256 ^ (f.width form - 1) ≤ n ∧ n < 256 ^ f.width form := by
  have h := Bytes.digitCount_eq_succ_iff (n := n) (k := f.width form - 1)
  rwa [← width_eq] at h

/-- The number that a wire value spells takes all its bytes unless the first of them is zero. -/
theorem le_toNat_iff (w : Wire) :
    256 ^ (w.family.width w.form - 1) ≤ Bytes.toNat w.bytes ↔ w.bytes.head? ≠ some 0 := by
  have hlength := w.length_bytes
  rw [width_eq] at hlength
  obtain ⟨b, rest, hbytes⟩ := List.exists_cons_of_length_eq_add_one hlength
  rw [hbytes, List.length_cons, Nat.add_right_cancel_iff] at hlength
  rw [hbytes, ← hlength, Bytes.le_toNat_cons_iff, List.head?_cons, Ne, Ne, Option.some.injEq]

/-- A numeral is read as the wire value whose bytes spell the number, if it takes all of them. -/
theorem ofText_numeral {N : Numeration} (hN : N ∈ Numeration.all) {rest : List Char} {n : Nat}
    (hn : Spells N.digits (N.folded rest) n) (f : Family) (form : Form) :
    ofText f form (Utf8.encode (N.code :: rest)) =
      if 256 ^ (f.width form - 1) ≤ n ∧ n < 256 ^ f.width form then .ok (ofNumber f form n)
      else .error (.wrongTextWidth f form (Bytes.digitCount n)) := by
  have hlength : (Bytes.shortest n).length = Bytes.digitCount n := Bytes.length_ofNat _ n
  rw [ofText, Numeration.isRead_of_mem N hN, readPositional, Positional.value?_eq_some_iff.mpr hn]
  simp only [ofReading]
  -- the length of the shortest bytes is what is compared with the width
  by_cases hwidth : Bytes.digitCount n = f.width form
  · rw [if_pos (digitCount_eq_width_iff.mp hwidth), dif_pos (hlength.trans hwidth)]
    simp only [ofNumber, Bytes.shortest, hwidth]
  · rw [if_neg (mt digitCount_eq_width_iff.mpr hwidth), dif_neg (by rwa [hlength]), hlength]

/-- Characters of which one is no digit are not read at all. -/
theorem ofText_foreign {N : Numeration} (hN : N ∈ Numeration.all) {rest : List Char}
    (hforeign : ∃ c ∈ N.folded rest, c ∉ N.digits) (f : Family) (form : Form) :
    ofText f form (Utf8.encode (N.code :: rest)) = .error (.unreadableText f form .foreignDigit) := by
  rw [ofText, Numeration.isRead_of_mem N hN, readPositional, Positional.value?_eq_none_iff.mpr hforeign]
  rfl

/-- A numeral is read as a wire value exactly if it spells the number that the bytes spell and the first of
    these is not zero. -/
theorem ofText_eq_ok_iff {N : Numeration} (hN : N ∈ Numeration.all) (rest : List Char) (f : Family)
    (form : Form) (w : Wire) :
    ofText f form (Utf8.encode (N.code :: rest)) = .ok w ↔
      w.family = f ∧ w.form = form ∧ w.bytes.head? ≠ some 0 ∧
        Spells N.digits (N.folded rest) (Bytes.toNat w.bytes) := by
  constructor
  · intro h
    -- a text that is read is a numeral, and its number is in range
    cases hvalue : Positional.value? N.digits (N.folded rest) with
    | none =>
      rw [ofText_foreign hN (Positional.value?_eq_none_iff.mp hvalue)] at h
      cases h
    | some n =>
      have hn := Positional.value?_eq_some_iff.mp hvalue
      rw [ofText_numeral hN hn] at h
      split at h
      · next hrange =>
        cases h
        have hnat : Bytes.toNat (ofNumber f form n).bytes = n := toNat_ofNumber hrange.2
        exact ⟨rfl, rfl, (le_toNat_iff _).mp (hnat.symm ▸ hrange.1), hnat.symm ▸ hn⟩
      · cases h
  · rintro ⟨rfl, rfl, hhead, hn⟩
    have hhigh : Bytes.toNat w.bytes < 256 ^ w.family.width w.form := w.length_bytes ▸ Bytes.toNat_lt _
    rw [ofText_numeral hN hn, if_pos ⟨(le_toNat_iff w).mpr hhead, hhigh⟩, ofNumber_toNat]

/-- The print of a wire value is the shortest numeral for the number that its bytes spell. -/
theorem text_eq (w : Wire) :
    w.text = String.ofList ('z' :: Positional.numeral base58 (Bytes.toNat w.bytes)) := rfl

end Wire

namespace Suite

variable {P₁ P₂ T : Type} (S : Suite P₁ P₂ T)

/-- A text that selects a positional encoding is read as the wire value that spells the same number, if the
    number takes all the bytes of one; otherwise, and if a character is no digit, it is refused.  The print
    of a wire value is a `z` and the shortest numeral in base 58. -/
theorem readWire_numeral (f : Family) (form : Form) :
    (∀ N ∈ Numeration.all, ∀ rest : List Char,
      (∀ n, Spells N.digits (N.folded rest) n →
        if 256 ^ (f.width form - 1) ≤ n ∧ n < 256 ^ f.width form then
          S.readWire f form (.text (N.text rest)) = .ok (.ofNumber f form n)
        else
          ∃ failure, S.readWire f form (.text (N.text rest)) = .error failure ∧
            failure.category = .error .parseFromString) ∧
      ((∃ c ∈ N.folded rest, c ∉ N.digits) →
        ∃ failure, S.readWire f form (.text (N.text rest)) = .error failure ∧
          failure.category = .error .parseFromString)) ∧
    ∀ w : Wire, S.print (.wire w) = .ok w.text ∧
      ∃ numeral, w.text = String.ofList ('z' :: numeral) ∧
        Shortest base58 numeral (Bytes.toNat w.bytes) ∧ (Bytes.toNat w.bytes = 0 → numeral = ['1']) := by
  -- all that is read off a text is read off its bytes
  have hread : ∀ (N : Numeration) (rest : List Char), S.readWire f form (.text (N.text rest)) =
      Wire.ofText f form (Utf8.encode (N.code :: rest)) := by
    intro N rest
    rw [Numeration.text, readWire, String.toList_ofList]
  refine ⟨fun N hN rest => ⟨fun n hn => ?_, fun hforeign => ?_⟩, fun w => ⟨rfl, _, w.text_eq, ?_, ?_⟩⟩
  · have hnumber := Wire.ofText_numeral hN hn f form
    rw [hread]
    split
    · next hrange => rw [hnumber, if_pos hrange]
    · next hrange => exact ⟨_, hnumber.trans (if_neg hrange), rfl⟩
  · rw [hread]
    exact ⟨_, Wire.ofText_foreign hN hforeign f form, rfl⟩
  · exact Positional.shortest_numeral digits_base58 _
  · intro hzero
    rw [hzero, Positional.numeral_zero digits_base58]
    rfl

/-- Zeros in front and a letter of the other case do no harm, a byte too few and a letter too far do. -/
theorem readWire_numeral_hexadecimal :
    Spells Numeration.hexadecimal.digits
        (Numeration.hexadecimal.folded (['0', '0', '0', 'A'] ++ List.replicate 94 '0')) (10 * 256 ^ 47) ∧
      bls12381.readWire .key .compressed
          (.text (Numeration.hexadecimal.text (['0', '0', '0', 'A'] ++ List.replicate 94 '0'))) =
        .ok (.ofNumber .key .compressed (10 * 256 ^ 47)) ∧
      (∃ failure,
        bls12381.readWire .key .compressed
            (.text (Numeration.hexadecimal.text (['0', '0', '0', 'A'] ++ List.replicate 92 '0'))) =
          .error failure ∧ failure.category = .error .parseFromString) ∧
      ∃ failure,
        bls12381.readWire .key .compressed (.text (Numeration.hexadecimal.text ['g'])) = .error failure ∧
          failure.category = .error .parseFromString := by
  have hmem : Numeration.hexadecimal ∈ Numeration.all := by simp [Numeration.all]
  -- the letter counts as its lower case: one numeral fills the width, another falls short of it by a byte
  have hwhole : Spells Numeration.hexadecimal.digits
      (Numeration.hexadecimal.folded (['0', '0', '0', 'A'] ++ List.replicate 94 '0')) (10 * 256 ^ 47) :=
    Positional.value?_eq_some_iff.mp (by decide +kernel)
  have hshort : Spells Numeration.hexadecimal.digits
      (Numeration.hexadecimal.folded (['0', '0', '0', 'A'] ++ List.replicate 92 '0')) (10 * 256 ^ 46) :=
    Positional.value?_eq_some_iff.mp (by decide +kernel)
  have hread := (readWire_numeral bls12381 .key .compressed).1 Numeration.hexadecimal hmem
  have hin := (hread _).1 _ hwhole
  have hout := (hread _).1 _ hshort
  have hforeign := (hread ['g']).2 ⟨'g', by decide, by decide⟩
  rw [if_pos (by decide)] at hin
  rw [if_neg (by decide)] at hout
  exact ⟨hwhole, hin, hout, hforeign⟩

/-! ## Texts that are read as the same wire value -/

/-- A text in base 58 is read as a wire value exactly if it spells the number of its bytes, and the first
    of these is not zero. -/
theorem readWire_base58 {f : Family} {form : Form} {rest : List Char} {w : Wire} :
    S.readWire f form (.text (String.ofList ('z' :: rest))) = .ok w ↔
      w.family = f ∧ w.form = form ∧ w.bytes.head? ≠ some 0 ∧
        Spells base58 rest (Bytes.toNat w.bytes) := by
  have hmem : Numeration.printed ∈ Numeration.all := by simp [Numeration.all]
  have h := Wire.ofText_eq_ok_iff hmem rest f form w
  rw [Numeration.printed, Numeration.folded_plain] at h
  rw [readWire, String.toList_ofList]
  exact h

/-- A text in base 58 is read as a wire value exactly if it is the print of that value once the ones behind
    the `z` are taken off, and the first byte of the value is not zero. -/
theorem readWire_base58_iff (f : Family) (form : Form) (rest : List Char) (w : Wire) :
    S.readWire f form (.text (String.ofList ('z' :: rest))) = .ok w ↔
      w.family = f ∧ w.form = form ∧ w.bytes.head? ≠ some 0 ∧
        w.text = String.ofList ('z' :: rest.dropWhile (· = '1')) := by
  rw [readWire_base58]
  refine and_congr_right fun _ => and_congr_right fun _ => and_congr_right fun hhead => ?_
  -- the number is not zero, so its numeral has no one in front
  have hne : Bytes.toNat w.bytes ≠ 0 :=
    Nat.ne_of_gt (Nat.lt_of_lt_of_le (Nat.pow_pos (by decide)) ((Wire.le_toNat_iff w).mpr hhead))
  rw [Wire.text_eq, String.ofList_inj, List.cons_inj_right, Positional.numeral_of_ne_zero digits_base58 hne,
    eq_comm (a := Positional.significant _ _)]
  exact Positional.spells_iff_dropWhile digits_base58

/-- The compressed form of the generator, which is the public key of the secret scalar one. -/
def generatorKey : Wire :=
  .ofNumber .key .compressed
    0x97f1d3a73197d7942695638c4fa9ac0fc3688c4f9774b905a14e3a3f171bac586c55e83ff97a1aeffb3af00adb22c6bb

/-- It is read from its print, and from that with a one behind the `z` as well. -/
theorem readWire_generatorKey_with_one :
    bls12381.toCompressed (.key bls12381.generator) = .ok generatorKey ∧
      generatorKey.text = "z6aGxBiDyBZxEL9RKJz8W2h7VQUUKv9BPqHbC2DNWKExVRM7GWtLk6mTQBYXbpgRHwp" ∧
      bls12381.readWire .key .compressed
          (.text "z16aGxBiDyBZxEL9RKJz8W2h7VQUUKv9BPqHbC2DNWKExVRM7GWtLk6mTQBYXbpgRHwp") =
        .ok generatorKey ∧
      generatorKey.text ≠ "z16aGxBiDyBZxEL9RKJz8W2h7VQUUKv9BPqHbC2DNWKExVRM7GWtLk6mTQBYXbpgRHwp" := by
  have hencoded : (bls12381.toCompressed (.key bls12381.generator)).toOption = some generatorKey := by
    decide +kernel
  have htext :
      generatorKey.text = "z6aGxBiDyBZxEL9RKJz8W2h7VQUUKv9BPqHbC2DNWKExVRM7GWtLk6mTQBYXbpgRHwp" := by
    decide +kernel
  -- the one behind the letter is a zero in front
  have hspells : Spells base58 "16aGxBiDyBZxEL9RKJz8W2h7VQUUKv9BPqHbC2DNWKExVRM7GWtLk6mTQBYXbpgRHwp".toList
      (Bytes.toNat generatorKey.bytes) := Positional.value?_eq_some_iff.mp (by decide +kernel)
  refine ⟨?_, htext, ?_, by rw [htext]; decide⟩
  · cases h : bls12381.toCompressed (.key bls12381.generator) with
    | error failure => rw [h] at hencoded; cases hencoded
    | ok w => rw [h] at hencoded; exact congrArg _ (Option.some_inj.mp hencoded)
  · exact (readWire_base58 bls12381).mpr ⟨rfl, rfl, by decide +kernel, hspells⟩

end Suite

end AggSig
