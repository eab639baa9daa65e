/-
  Text is read back from its own bytes.

  The bytes of a character are a first byte, which says how many follow, and later bytes of six bits
  each.  The reader takes the second byte only within bounds that leave out longer forms and surrogates.
  So each length is a case of its own: what is read off that many bytes, and that the bytes of a
  character lie within the bounds.  Together, one character is read at a time
  (`decodeFrom_utf8EncodeChar`), and a text is read back (`decode_encode`).
-/
import AggSig.Text.Utf8

namespace AggSig.Utf8

/-! ## Bytes within bounds -/

theorem within_eq_true_iff {low high b : UInt8} :
    within low high b = true ↔ low.toNat ≤ b.toNat ∧ b.toNat ≤ high.toNat := by
  rw [within, Bool.and_eq_true, decide_eq_true_iff, decide_eq_true_iff, UInt8.le_iff_toNat_le,
    UInt8.le_iff_toNat_le]

theorem not_within_of_lt {low high b : UInt8} (h : high.toNat < b.toNat) :
    ¬ within low high b = true := by
  rw [within_eq_true_iff]
  omega

/-- Within bounds that start at the later bytes, a byte is not a character of its own. -/
theorem not_lt_of_within {low high b : UInt8} (h : within low high b = true)
    (hlow : 0x80 ≤ low.toNat) : ¬ b < 0x80 := by
  have hb : 0x80 ≤ b.toNat := Nat.le_trans hlow (within_eq_true_iff.mp h).1
  rw [UInt8.lt_iff_toNat_lt]
  exact Nat.not_lt.mpr hb

/-- A second byte may be any later byte, but for a lower bound after the least first byte and an upper bound
    after another one. -/
theorem within_second {least other low high b c : UInt8} {bounds : UInt8 × UInt8}
    (hbounds : bounds =
      if b = least then (low, 0xbf) else if b = other then (0x80, high) else (0x80, 0xbf))
    (hc : within 0x80 0xbf c = true) (hlow : b.toNat = least.toNat → low.toNat ≤ c.toNat)
    (hhigh : b.toNat = other.toNat → c.toNat ≤ high.toNat) : within bounds.1 bounds.2 c = true := by
  obtain ⟨hmin, hmax⟩ := within_eq_true_iff.mp hc
  rw [hbounds]
  split
  · next hb => exact within_eq_true_iff.mpr ⟨hlow (congrArg UInt8.toNat hb), hmax⟩
  · split
    · next hb => exact within_eq_true_iff.mpr ⟨hmin, hhigh (congrArg UInt8.toNat hb)⟩
    · exact hc

/-- The second byte of three: after the least first byte it starts higher, and it stays below the
    surrogates. -/
theorem within_secondOfThree {b c : UInt8} (hc : within 0x80 0xbf c = true)
    (hlow : b.toNat = 0xe0 → 0xa0 ≤ c.toNat) (hhigh : b.toNat = 0xed → c.toNat ≤ 0x9f) :
    within (secondOfThree b).1 (secondOfThree b).2 c = true :=
  within_second rfl hc hlow hhigh

/-- The second byte of four: after the least first byte it starts higher, and after the last one it ends
    lower. -/
theorem within_secondOfFour {b c : UInt8} (hc : within 0x80 0xbf c = true)
    (hlow : b.toNat = 0xf0 → 0x90 ≤ c.toNat) (hhigh : b.toNat = 0xf4 → c.toNat ≤ 0x8f) :
    within (secondOfFour b).1 (secondOfFour b).2 c = true :=
  within_second rfl hc hlow hhigh

/-! ## What is read, by the number of bytes -/

section Reading

variable {position : Nat} {b c d e : UInt8} {rest : Bytes}

/-- A byte below the later ones is a character. -/
theorem decodeFrom_one (hb : b.toNat < 0x80) :
    decodeFrom position (b :: rest) =
      (Char.ofNat b.toNat :: ·) <$> decodeFrom (position + 1) rest := by
  have hfirst : b < 0x80 := UInt8.lt_iff_toNat_lt.mpr hb
  rw [decodeFrom.eq_def]
  exact if_pos hfirst

/-- Two bytes hold five bits and six. -/
theorem decodeFrom_two (hb : within 0xc2 0xdf b = true) (hc : within 0x80 0xbf c = true) :
    decodeFrom position (b :: c :: rest) =
      (Char.ofNat (b.toNat % 32 * 64 + payload c) :: ·) <$> decodeFrom (position + 2) rest := by
  rw [decodeFrom.eq_def]
  simp only [if_neg (not_lt_of_within hb (by decide)), if_pos hb, if_pos hc]

/-- Three bytes hold four bits, six and six. -/
theorem decodeFrom_three (hb : within 0xe0 0xef b = true)
    (hc : within (secondOfThree b).1 (secondOfThree b).2 c = true) (hd : within 0x80 0xbf d = true) :
    decodeFrom position (b :: c :: d :: rest) =
      (Char.ofNat ((b.toNat % 16 * 64 + payload c) * 64 + payload d) :: ·) <$>
        decodeFrom (position + 3) rest := by
  have hmin : 0xe0 ≤ b.toNat := (within_eq_true_iff.mp hb).1
  -- the reader tries the shorter lengths first
  have htwo : ¬ within 0xc2 0xdf b = true := not_within_of_lt hmin
  rw [decodeFrom.eq_def]
  simp only [if_neg (not_lt_of_within hb (by decide)), if_neg htwo, if_pos hb, if_pos hc, if_pos hd]

/-- Four bytes hold three bits and three times six. -/
theorem decodeFrom_four (hb : within 0xf0 0xf4 b = true)
    (hc : within (secondOfFour b).1 (secondOfFour b).2 c = true) (hd : within 0x80 0xbf d = true)
    (he : within 0x80 0xbf e = true) :
    decodeFrom position (b :: c :: d :: e :: rest) =
      (Char.ofNat (((b.toNat % 8 * 64 + payload c) * 64 + payload d) * 64 + payload e) :: ·) <$>
        decodeFrom (position + 4) rest := by
  have hmin : 0xf0 ≤ b.toNat := (within_eq_true_iff.mp hb).1
  -- the reader tries the shorter lengths first
  have htwo : ¬ within 0xc2 0xdf b = true := not_within_of_lt (Nat.lt_of_lt_of_le (by decide) hmin)
  have hthree : ¬ within 0xe0 0xef b = true := not_within_of_lt hmin
  rw [decodeFrom.eq_def]
  simp only [if_neg (not_lt_of_within hb (by decide)), if_neg htwo, if_neg hthree, if_pos hb, if_pos hc,
    if_pos hd, if_pos he]

end Reading

/-! ## The bytes of a character -/

theorem toNat_ofNat_of_le {n : Nat} (h : n ≤ 0xff) : (UInt8.ofNat n).toNat = n :=
  UInt8.toNat_ofNat_of_lt' (Nat.lt_succ_of_le h)

/-- A later byte holds six bits. -/
theorem toNat_later (n : Nat) : (UInt8.ofNat (n % 64 + 128)).toNat = n % 64 + 128 :=
  toNat_ofNat_of_le (by omega)

/-- A byte that holds six bits is a later byte. -/
theorem within_later (n : Nat) : within 0x80 0xbf (UInt8.ofNat (n % 64 + 128)) = true := by
  rw [within_eq_true_iff, toNat_later]
  show 128 ≤ _ ∧ _ ≤ 191
  omega

theorem payload_later (n : Nat) : payload (UInt8.ofNat (n % 64 + 128)) = n % 64 := by
  rw [payload, toNat_later]
  omega

section Bits

variable (position : Nat) {n : Nat} (rest : Bytes)

/-- Seven bits are read back from one byte. -/
theorem decodeFrom_bits_one (hmax : n ≤ 0x7f) :
    decodeFrom position (UInt8.ofNat n :: rest) =
      (Char.ofNat n :: ·) <$> decodeFrom (position + 1) rest := by
  have hb : (UInt8.ofNat n).toNat = n := toNat_ofNat_of_le (by omega)
  rw [decodeFrom_one (by omega), hb]

/-- Eleven bits are read back from two bytes. -/
theorem decodeFrom_bits_two (hmin : 0x7f < n) (hmax : n ≤ 0x7ff) :
    decodeFrom position (UInt8.ofNat (n / 64 % 32 + 192) :: UInt8.ofNat (n % 64 + 128) :: rest) =
      (Char.ofNat n :: ·) <$> decodeFrom (position + 2) rest := by
  have hb : (UInt8.ofNat (n / 64 % 32 + 192)).toNat = n / 64 % 32 + 192 := toNat_ofNat_of_le (by omega)
  -- at least two bytes are needed, so the first one is not below its bound
  have hfirst : within 0xc2 0xdf (UInt8.ofNat (n / 64 % 32 + 192)) = true := by
    rw [within_eq_true_iff, hb]
    show 194 ≤ _ ∧ _ ≤ 223
    omega
  have hbits : (n / 64 % 32 + 192) % 32 * 64 + n % 64 = n := by omega
  rw [decodeFrom_two hfirst (within_later _), hb, payload_later, hbits]

/-- Sixteen bits are read back from three bytes, unless they are a surrogate. -/
theorem decodeFrom_bits_three (hmin : 0x7ff < n) (hmax : n ≤ 0xffff)
    (hvalid : n < 0xd800 ∨ 0xdfff < n) :
    decodeFrom position (UInt8.ofNat (n / 4096 % 16 + 224) :: UInt8.ofNat (n / 64 % 64 + 128) ::
        UInt8.ofNat (n % 64 + 128) :: rest) =
      (Char.ofNat n :: ·) <$> decodeFrom (position + 3) rest := by
  have hb : (UInt8.ofNat (n / 4096 % 16 + 224)).toNat = n / 4096 % 16 + 224 :=
    toNat_ofNat_of_le (by omega)
  have hfirst : within 0xe0 0xef (UInt8.ofNat (n / 4096 % 16 + 224)) = true := by
    rw [within_eq_true_iff, hb]
    show 224 ≤ _ ∧ _ ≤ 239
    omega
  -- the bounds of the second byte are those of the number: it needs three bytes and is no surrogate
  have hsecond := within_secondOfThree (b := UInt8.ofNat (n / 4096 % 16 + 224)) (within_later (n / 64))
    (by rw [hb, toNat_later]; omega) (by rw [hb, toNat_later]; omega)
  have hbits : ((n / 4096 % 16 + 224) % 16 * 64 + n / 64 % 64) * 64 + n % 64 = n := by omega
  rw [decodeFrom_three hfirst hsecond (within_later _), hb, payload_later, payload_later, hbits]

/-- What is above sixteen bits is read back from four bytes. -/
theorem decodeFrom_bits_four (hmin : 0xffff < n) (hmax : n ≤ 0x10ffff) :
    decodeFrom position (UInt8.ofNat (n / 262144 % 8 + 240) :: UInt8.ofNat (n / 4096 % 64 + 128) ::
        UInt8.ofNat (n / 64 % 64 + 128) :: UInt8.ofNat (n % 64 + 128) :: rest) =
      (Char.ofNat n :: ·) <$> decodeFrom (position + 4) rest := by
  have hb : (UInt8.ofNat (n / 262144 % 8 + 240)).toNat = n / 262144 % 8 + 240 :=
    toNat_ofNat_of_le (by omega)
  have hfirst : within 0xf0 0xf4 (UInt8.ofNat (n / 262144 % 8 + 240)) = true := by
    rw [within_eq_true_iff, hb]
    show 240 ≤ _ ∧ _ ≤ 244
    omega
  -- the bounds of the second byte are those of the number: it needs four bytes and is a character
  have hsecond := within_secondOfFour (b := UInt8.ofNat (n / 262144 % 8 + 240))
    (within_later (n / 4096)) (by rw [hb, toNat_later]; omega) (by rw [hb, toNat_later]; omega)
  have hbits : (((n / 262144 % 8 + 240) % 8 * 64 + n / 4096 % 64) * 64 + n / 64 % 64) * 64 + n % 64 = n := by
    omega
  rw [decodeFrom_four hfirst hsecond (within_later _) (within_later _), hb, payload_later,
    payload_later, payload_later, hbits]

end Bits

/-- A character is read from its bytes, whatever follows them. -/
theorem decodeFrom_utf8EncodeChar (position : Nat) (c : Char) (rest : Bytes) :
    ∃ next, decodeFrom position (String.utf8EncodeChar c ++ rest) =
      (c :: ·) <$> decodeFrom next rest := by
  have hvalid : c.toNat < 0xd800 ∨ 0xdfff < c.toNat ∧ c.toNat < 0x110000 := c.valid
  have hnumber : Char.ofNat c.toNat = c := Char.ofNat_toNat c
  rw [String.utf8EncodeChar]
  simp only [Char.toNat_val]
  -- one case for each number of bytes
  split
  · next hone => exact ⟨_, hnumber ▸ decodeFrom_bits_one position rest hone⟩
  · split
    · next hone htwo => exact ⟨_, hnumber ▸ decodeFrom_bits_two position rest (by omega) htwo⟩
    · split
      · next _ htwo hthree =>
        exact ⟨_, hnumber ▸ decodeFrom_bits_three position rest (by omega) hthree (by omega)⟩
      · next hthree => exact ⟨_, hnumber ▸ decodeFrom_bits_four position rest (by omega) (by omega)⟩

/-- From any position on, the characters are read one by one. -/
theorem decodeFrom_encode (position : Nat) (cs : List Char) :
    decodeFrom position (encode cs) = .ok cs := by
  induction cs generalizing position with
  | nil => rfl
  | cons c cs ih =>
    obtain ⟨next, hfirst⟩ := decodeFrom_utf8EncodeChar position c (encode cs)
    show decodeFrom position (String.utf8EncodeChar c ++ encode cs) = _
    rw [hfirst, ih]
    rfl

/-- A text is read back from its own bytes. -/
theorem decode_encode (cs : List Char) : decode (encode cs) = .ok cs := decodeFrom_encode 0 cs

end AggSig.Utf8
