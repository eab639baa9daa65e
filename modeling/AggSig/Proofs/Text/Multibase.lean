/-
  Printed wire values, read back.

  The printed form of bytes is one numeral for all of them, so it is read as the fewest bytes that spell
  the same number: the zeros in front are lost (`decode_encode58`).  A wire value that starts with a
  zero byte is therefore printed as a text that is not read back, because what is read is too narrow
  (`readWire_text`).

  That concerns the affine encodings of points with a small abscissa, such as the public key of the
  secret key eleven, and every wire value of zeros.
-/
import AggSig.Printed
import AggSig.Proofs.Bytes
import AggSig.Proofs.Text.Positional

namespace AggSig

namespace Multibase

/-! ## Characters in ASCII -/

/-- A text whose characters are one byte each. -/
def IsAscii (cs : List Char) : Prop := ∀ c ∈ cs, c.toNat < 128

instance : DecidablePred IsAscii := fun cs =>
  decidable_of_iff (cs.all fun c => c.toNat < 128) (by simp [IsAscii])

/-- A character in ASCII is one byte. -/
theorem utf8EncodeChar_ascii {c : Char} (hc : c.toNat < 128) :
    String.utf8EncodeChar c = [UInt8.ofNat c.toNat] := by
  have hle : c.val.toNat ≤ 127 := Nat.le_of_lt_succ hc
  show (if c.val.toNat ≤ 127 then [UInt8.ofNat c.val.toNat] else _) = _
  rw [if_pos hle]
  rfl

/-- A text in ASCII has a byte for each character. -/
theorem encode_ascii {cs : List Char} (h : IsAscii cs) :
    Utf8.encode cs = cs.map fun c => UInt8.ofNat c.toNat := by
  induction cs with
  | nil => rfl
  | cons c rest ih =>
    obtain ⟨hc, hrest⟩ := List.forall_mem_cons.mp h
    show String.utf8EncodeChar c ++ Utf8.encode rest = _
    rw [utf8EncodeChar_ascii hc, ih hrest]
    rfl

/-- The bytes of such a text are taken as its characters again. -/
theorem chars_encode {cs : List Char} (h : IsAscii cs) : chars (Utf8.encode cs) = cs := by
  rw [encode_ascii h, chars, List.map_map]
  conv_rhs => rw [← List.map_id cs]
  apply List.map_congr_left
  intro c hc
  have hlt := h c hc
  have hcode : (UInt8.ofNat c.toNat).toNat = c.toNat := by
    rw [UInt8.toNat_ofNat']
    omega
  show Char.ofNat (UInt8.ofNat c.toNat).toNat = c
  rw [hcode, Char.ofNat_toNat]

/-- Whatever an ASCII character selects reads the bytes of the characters after it. -/
theorem decode_encode_cons {c : Char} {encoding : Encoding} (hc : c.toNat < 128)
    (hselects : Encoding.ofCode (UInt8.ofNat c.toNat) = some encoding) (rest : List Char) :
    decode (Utf8.encode (c :: rest)) = encoding.read (Utf8.encode rest) := by
  have hbytes : Utf8.encode (c :: rest) = UInt8.ofNat c.toNat :: Utf8.encode rest := by
    show String.utf8EncodeChar c ++ Utf8.encode rest = _
    rw [utf8EncodeChar_ascii hc]
    rfl
  -- the first byte of an emoji is above ASCII
  have hemoji : (UInt8.ofNat c.toNat :: Utf8.encode rest).take 4 ≠ emojiCode := by
    intro h
    have hcode : UInt8.ofNat c.toNat = 0xf0 := (List.cons.inj h).1
    have hnat : c.toNat % 256 = 0xf0 := (UInt8.toNat_ofNat' ..).symm.trans (congrArg UInt8.toNat hcode)
    omega
  rw [hbytes, decode, decodeShown, if_neg hemoji]
  simp only [hselects]

/-! ## Base 58 -/

theorem digits_base58 : Positional.Digits base58 := ⟨by decide, by decide⟩

theorem isAscii_base58 : IsAscii base58 := by decide

theorem isAscii_numeral (n : Nat) : IsAscii (Positional.numeral base58 n) := by
  intro c hc
  exact isAscii_base58 c (Positional.mem_of_mem_numeral digits_base58 hc)

/-- What is read from the printed form of bytes are the bytes without the zeros in front. -/
theorem decode_encode58 (data : Bytes) :
    decode (Utf8.encode (encode58 data).toList) = .ok (data.dropWhile (· = 0)) := by
  have hascii := isAscii_numeral (Bytes.toNat data)
  rw [encode58, String.toList_ofList, decode_encode_cons (by decide) rfl]
  show readPositional base58 (chars (Utf8.encode _)) = _
  rw [chars_encode hascii, readPositional, Positional.value?_numeral digits_base58,
    ← Bytes.shortest_toNat]

end Multibase

/-! ## Wire values -/

/-- Of a wire value that starts with a zero byte, too few bytes are read back. -/
theorem Wire.ofText_text_of_zero {w : Wire} (h : w.bytes.head? = some 0) :
    Wire.ofText w.family w.form (Utf8.encode w.text.toList) =
      .error (.wrongTextWidth w.family w.form (w.bytes.dropWhile (· = 0)).length) := by
  have hshort : (w.bytes.dropWhile (· = 0)).length ≠ w.family.width w.form := by
    obtain ⟨rest, hrest⟩ := List.head?_eq_some_iff.mp h
    have hle : (rest.dropWhile (· = 0)).length ≤ rest.length := (List.dropWhile_suffix _).length_le
    rw [← w.length_bytes, hrest, List.dropWhile_cons_of_pos (by decide), List.length_cons]
    omega
  rw [ofText, text, Multibase.decode_encode58, ofReading, dif_neg hshort]

/-- Every other wire value is read back. -/
theorem Wire.ofText_text {w : Wire} (h : w.bytes.head? ≠ some 0) :
    Wire.ofText w.family w.form (Utf8.encode w.text.toList) = .ok w := by
  have hwhole : w.bytes.dropWhile (· = 0) = w.bytes := by
    cases hbytes : w.bytes with
    | nil => rfl
    | cons b rest =>
      rw [hbytes] at h
      exact List.dropWhile_cons_of_neg (by simpa using h)
  rw [ofText, text, Multibase.decode_encode58, hwhole, ofReading, dif_pos w.length_bytes]

namespace Suite

/-- A wire value prints as its text, and the text is read back as the wire value exactly if its first
    byte is not zero; otherwise too few bytes are read. -/
theorem readWire_text {P₁ P₂ T : Type} (S : Suite P₁ P₂ T) (w : Wire) :
    S.print (.wire w) = .ok w.text ∧
      S.readWire w.family w.form (.text w.text) =
        if w.bytes.head? = some 0 then
          .error (.wrongTextWidth w.family w.form (w.bytes.dropWhile (· = 0)).length)
        else .ok w := by
  refine ⟨rfl, ?_⟩
  show Wire.ofText w.family w.form (Utf8.encode w.text.toList) = _
  by_cases h : w.bytes.head? = some 0
  · rw [if_pos h, Wire.ofText_text_of_zero h]
  · rw [if_neg h, Wire.ofText_text h]

/-- The keypair of the secret scalar eleven. -/
def elevenKeypair : Keypair := ⟨⟨11, by decide⟩, by decide⟩

/-- Its public key starts with a zero byte in the affine form, so the print of that is not read back. -/
theorem readWire_text_fails_eleven :
    ∃ w, bls12381.toAffine (.key (bls12381.publicKey elevenKeypair)) = .ok w ∧
      bls12381.print (.wire w) = .ok w.text ∧
      bls12381.readWire .key .affine (.text w.text) = .error (.wrongTextWidth .key .affine 95) := by
  obtain ⟨data, hdata⟩ : ∃ data,
      bls12381.group₁.encodeAffine (bls12381.publicKey elevenKeypair) = data := ⟨_, rfl⟩
  -- the first coordinate is below 256 to the 47th, so that its first byte is zero
  obtain ⟨hlength, hhead, hcount⟩ :
      data.length = 96 ∧ data.head? = some 0 ∧ (data.dropWhile (· = 0)).length = 95 := by
    rw [← hdata]
    decide +kernel
  refine ⟨⟨.key, .affine, data, hlength⟩, ?_, rfl, ?_⟩
  · show Wire.ofBytes .key .affine
      (bls12381.group₁.encodeAffine (bls12381.publicKey elevenKeypair)) = _
    rw [hdata]
    exact dif_pos hlength
  · show Wire.ofText .key .affine _ = _
    rw [← hcount]
    exact Wire.ofText_text_of_zero (w := ⟨.key, .affine, data, hlength⟩) hhead

end Suite

end AggSig
