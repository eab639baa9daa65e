/-
  The compressed encodings: which byte strings are accepted, and as what.

  A compressed encoding spells the limbs of an abscissa, the first of them with flags on top.  With the
  compression flag alone, or with the sort flag as well, the first limb is `flagged`; with the infinity
  flag it is that of the identity (`decompress_eq_ok`).

  The sort flag tells which of the two ordinates is meant, and a member has a nonzero ordinate, so it
  tells them apart (`lift?_eq_some_iff`).  A member has a nonzero abscissa too, so that its limbs are
  never those of the identity.  That is why a compressed encoding is canonical.
-/
import AggSig.Proofs.Bytes
import AggSig.Proofs.Coding.Canonical
import AggSig.Proofs.Outcome

namespace AggSig

namespace Coding

/-! ## Flags -/

theorem compressionBit_eq : compressionBit = sortBit * 4 := by decide +kernel

theorem infinityBit_eq : infinityBit = sortBit * 2 := by decide +kernel

theorem limbBound_eq : 256 ^ limbWidth = sortBit * 8 := by decide +kernel

/-- A field element leaves the bits of the flags free. -/
theorem limb_lt_sortBit (a : Fq) : a.val < sortBit :=
  a.lt.trans (by decide +kernel)

/-- The first limb of a point: the compression flag, the sort flag if it is meant, and a value. -/
def flagged (value : Nat) (sort : Bool) : Nat :=
  value + (if sort then sortBit else 0) + compressionBit

/-- The flags are the digits of what is left of a limb above its value. -/
theorem isSet_iff (n : Nat) :
    (isSet compressionBit n = true ↔ n / sortBit / 4 % 2 = 1) ∧
      (isSet infinityBit n = true ↔ n / sortBit / 2 % 2 = 1) ∧
      (isSet sortBit n = true ↔ n / sortBit % 2 = 1) := by
  rw [compressionBit_eq, infinityBit_eq, isSet, isSet, isSet, decide_eq_true_iff, decide_eq_true_iff,
    decide_eq_true_iff, Nat.div_div_eq_div_mul, Nat.div_div_eq_div_mul]
  exact ⟨Iff.rfl, Iff.rfl, Iff.rfl⟩

/-- The flags are what is above the element. -/
theorem flagged_div (a : Fq) (sort : Bool) :
    flagged a.val sort / sortBit = 4 + (if sort then 1 else 0) := by
  have ha := limb_lt_sortBit a
  rw [flagged, compressionBit_eq]
  cases sort with
  | false => exact Nat.div_eq_of_lt_le (by simp; omega) (by simp; omega)
  | true => exact Nat.div_eq_of_lt_le (by simp; omega) (by simp; omega)

/-- The element is what is below the flags. -/
theorem flagged_mod (a : Fq) (sort : Bool) : flagged a.val sort % sortBit = a.val := by
  have ha := limb_lt_sortBit a
  rw [flagged, compressionBit_eq, Nat.add_mul_mod_self_left]
  -- for any bit that is large enough
  generalize sortBit = bit at ha ⊢
  cases sort with
  | false => exact Nat.mod_eq_of_lt ha
  | true => exact (Nat.add_mod_right _ _).trans (Nat.mod_eq_of_lt ha)

/-- With flags, an element still has its width. -/
theorem flagged_lt (a : Fq) (sort : Bool) : flagged a.val sort < 256 ^ limbWidth := by
  have ha := limb_lt_sortBit a
  rw [limbBound_eq, flagged, compressionBit_eq]
  -- for any bit that is large enough
  generalize sortBit = bit at ha ⊢
  split <;> omega

/-- What has the compression flag but not the infinity flag is a value with these flags. -/
theorem eq_flagged {n : Nat} (hn : n < 256 ^ limbWidth) (hcompressed : isSet compressionBit n = true)
    (hfinite : ¬ isSet infinityBit n = true) : n = flagged (n % sortBit) (isSet sortBit n) := by
  obtain ⟨hc, hi, hs⟩ := isSet_iff n
  have htop : n / sortBit < 8 := Nat.div_lt_of_lt_mul (limbBound_eq ▸ hn)
  have hsum := Nat.div_add_mod n sortBit
  rw [hc] at hcompressed
  rw [hi] at hfinite
  rw [flagged, compressionBit_eq]
  generalize n / sortBit = top at *
  by_cases hsort : top % 2 = 1
  · obtain rfl : top = 5 := by omega
    rw [if_pos (hs.mpr hsort)]
    omega
  · obtain rfl : top = 4 := by omega
    rw [if_neg fun h => hsort (hs.mp h)]
    omega

/-- What has the compression and the infinity flag but not the sort flag, and nothing else, is both
    flags. -/
theorem eq_identityLimb {n : Nat} (hn : n < 256 ^ limbWidth)
    (hcompressed : isSet compressionBit n = true) (hinfinite : isSet infinityBit n = true)
    (hsort : ¬ isSet sortBit n = true) (hvalue : n % sortBit = 0) :
    n = compressionBit + infinityBit := by
  obtain ⟨hc, hi, hs⟩ := isSet_iff n
  have htop : n / sortBit < 8 := Nat.div_lt_of_lt_mul (limbBound_eq ▸ hn)
  have hsum := Nat.div_add_mod n sortBit
  rw [hc] at hcompressed
  rw [hi] at hinfinite
  rw [hs] at hsort
  rw [compressionBit_eq, infinityBit_eq]
  generalize n / sortBit = top at *
  obtain rfl : top = 6 := by omega
  omega

variable {F : Type} {C : Coding F}

/-- The encoding of the identity is spelled by its flags and zeros. -/
theorem compressedIdentity_eq_spell {count : Nat} (h : C.limbCount = count + 1) :
    C.compressedIdentity =
      Bytes.spell limbWidth ((compressionBit + infinityBit) :: List.replicate count 0) := by
  have hflags : compressionBit + infinityBit = (0xc0 : UInt8).toNat * 256 ^ 47 := by decide +kernel
  rw [compressedIdentity, width_compressed, h, hflags]
  exact Bytes.cons_zeros_eq_spell 0xc0 47 count

/-! ## Limbs with flags -/

/-- A finite point is written as the limbs of its abscissa, with the flags in the first of them. -/
theorem compress_eq_spell {x : F} {first : Fq} {rest : List Fq} (h : C.toLimbs x = first :: rest)
    (y : F) :
    C.compress x y =
      Bytes.spell limbWidth (flagged first.val (C.isUpperHalf y) :: rest.map Fq.val) := by
  rw [compress, h, Bytes.spell_cons, Bytes.spell, List.flatMap_map]
  rfl

variable [Field F]

/-- Flags without a value stand for the identity. -/
theorem decompress_identityLimb {rest : List Fq} (h : ∀ limb ∈ rest, limb = 0) :
    C.decompress (compressionBit + infinityBit) rest = .ok Point.infinity := by
  have hcompressed : isSet compressionBit (compressionBit + infinityBit) = true := by decide +kernel
  have hinfinite : isSet infinityBit (compressionBit + infinityBit) = true := by decide +kernel
  have hsort : isSet sortBit (compressionBit + infinityBit) = false := by decide +kernel
  have hvalue : (compressionBit + infinityBit) % sortBit = 0 := by decide +kernel
  have hzero : rest.all (· = 0) = true := by simpa using h
  rw [decompress]
  simp only [hcompressed, hinfinite, hsort, hvalue, hzero]
  simp

/-- A limb with flags stands for a point with the abscissa that is spelled, if it is not zero. -/
theorem decompress_flagged {value : Fq} {rest : List Fq} (sort : Bool)
    (h : ¬ ∀ limb ∈ value :: rest, limb = 0) :
    C.decompress (flagged value.val sort) rest =
      match C.lift? (C.ofLimbs (value :: rest)) sort with
      | some p => .ok p
      | none => .error (.notDecompressed C.side .noPoint) := by
  obtain ⟨hc, hi, hs⟩ := isSet_iff (flagged value.val sort)
  rw [flagged_div] at hc hi hs
  have hcompressed : isSet compressionBit (flagged value.val sort) = true :=
    hc.mpr (by cases sort <;> rfl)
  have hinfinite : isSet infinityBit (flagged value.val sort) = false := by
    rw [Bool.eq_false_iff, ne_eq, hi]
    cases sort <;> simp
  have hsort : isSet sortBit (flagged value.val sort) = sort := by
    rw [Bool.eq_iff_iff, hs]
    cases sort <;> simp
  have hnonzero : ¬ (value.val = 0 ∧ rest.all (· = 0) = true) := by
    rintro ⟨hvalue, hrest⟩
    have hzero : ∀ limb ∈ rest, limb = 0 := by simpa using hrest
    exact h (List.forall_mem_cons.mpr ⟨Fq.ext hvalue, hzero⟩)
  rw [decompress]
  simp only [hcompressed, hinfinite, hsort, flagged_mod, hnonzero, value.lt, decide_false,
    ne_eq, not_true_eq_false, if_false, dif_pos]
  rfl

/-- Limbs are read as the identity or as a point with the abscissa that is spelled. -/
theorem decompress_eq_ok {first : Nat} {rest : List Fq} {p : Point F}
    (hfirst : first < 256 ^ limbWidth) (h : C.decompress first rest = .ok p) :
    (first = compressionBit + infinityBit ∧ (∀ limb ∈ rest, limb = 0) ∧ p = Point.infinity) ∨
      ∃ (value : Fq) (sort : Bool), first = flagged value.val sort ∧
        C.lift? (C.ofLimbs (value :: rest)) sort = some p := by
  rw [decompress] at h
  dsimp only at h
  -- along the checks in their order: what fails one of them stands for nothing
  by_cases hcompressed : isSet compressionBit first = false
  · rw [if_pos hcompressed] at h
    cases h
  · rw [if_neg hcompressed] at h
    rw [Bool.not_eq_false] at hcompressed
    by_cases hzero : first % sortBit = 0 ∧ rest.all (· = 0) = true
    · by_cases hinfinite : isSet infinityBit first = true
      · by_cases hsort : isSet sortBit first = true
        · simp only [hinfinite, hzero, hsort, and_self, decide_true, ne_eq, not_true_eq_false,
            if_false, if_true, reduceCtorEq] at h
        · simp only [hinfinite, hzero, hsort, and_self, decide_true, ne_eq, not_true_eq_false,
            if_false, if_true] at h
          cases h
          refine .inl ⟨eq_identityLimb hfirst hcompressed hinfinite hsort hzero.1, ?_, rfl⟩
          simpa using hzero.2
      · rw [decide_eq_true hzero, if_pos hinfinite] at h
        cases h
    · by_cases hinfinite : isSet infinityBit first = false
      · rw [decide_eq_false hzero, if_neg (not_not.mpr hinfinite), if_neg hzero] at h
        by_cases hvalue : first % sortBit < q
        · rw [dif_pos hvalue] at h
          refine .inr ⟨⟨_, hvalue⟩, isSet sortBit first,
            eq_flagged hfirst hcompressed (by simp [hinfinite]), ?_⟩
          split at h
          · next hlift =>
            cases h
            exact hlift
          · cases h
        · rw [dif_neg hvalue] at h
          cases h
      · rw [decide_eq_false hzero, if_pos hinfinite] at h
        cases h

theorem z_of_lift? {x : F} {sort : Bool} {p : Point F} (h : C.lift? x sort = some p) : p.z = 1 := by
  obtain ⟨r, -, hp⟩ := Option.map_eq_some_iff.mp h
  rw [← hp]

variable [DecidableEq F]

/-- What is decoded is what the limbs stand for, as far as it is let through. -/
theorem decodeCompressed_spell {first : Nat} {rest : List Fq} (hfirst : first < 256 ^ limbWidth)
    (hcount : C.limbCount = rest.length + 1) (allowIdentity : Bool) :
    C.decodeCompressed (Bytes.spell limbWidth (first :: rest.map Fq.val)) allowIdentity =
      C.decompress first rest >>= C.validate .compressed allowIdentity := by
  have hlength : (Bytes.spell limbWidth (first :: rest.map Fq.val)).length =
      C.side.width .compressed := by
    rw [Bytes.length_spell, width_compressed, hcount, List.length_cons, List.length_map]
  have hfit : ∀ n ∈ first :: rest.map Fq.val, n < 256 ^ limbWidth := by
    refine List.forall_mem_cons.mpr ⟨hfirst, fun n hn => ?_⟩
    obtain ⟨a, -, rfl⟩ := List.mem_map.mp hn
    exact limb_lt a
  have hnumbers := Bytes.numbers_spell hfit
  rw [List.length_cons, List.length_map, Bytes.numbers_succ] at hnumbers
  obtain ⟨hhead, htail⟩ := List.cons.inj hnumbers
  have hbelow : ∀ n ∈ rest.map Fq.val, n < q := by
    intro n hn
    obtain ⟨a, -, rfl⟩ := List.mem_map.mp hn
    exact a.lt
  have hrest : (Bytes.pieces limbWidth (C.limbCount - 1)
      ((Bytes.spell limbWidth (first :: rest.map Fq.val)).drop limbWidth)).map Bytes.toNat =
      rest.map Fq.val := by
    rw [hcount, Nat.add_sub_cancel]
    exact htail
  rw [decodeCompressed, if_neg (not_not.mpr hlength), mapM_readLimb, hrest, if_pos hbelow,
    map_ofNat_val, hhead]
  rfl

/-- Only limbs are decoded. -/
theorem exists_spell_of_decodeCompressed {data : Bytes} {allowIdentity : Bool} {p : Point F}
    (h : C.decodeCompressed data allowIdentity = .ok p) :
    ∃ (first : Nat) (rest : List Fq), first < 256 ^ limbWidth ∧ C.limbCount = rest.length + 1 ∧
      data = Bytes.spell limbWidth (first :: rest.map Fq.val) := by
  obtain ⟨count, hcount⟩ := C.exists_limbCount_eq
  by_cases hlength : data.length = C.side.width .compressed
  · rw [decodeCompressed, if_neg (not_not.mpr hlength), mapM_readLimb, hcount,
      Nat.add_sub_cancel] at h
    rw [width_compressed, hcount] at hlength
    have hspell := Bytes.spell_numbers hlength
    rw [Bytes.numbers_succ] at hspell
    by_cases hbelow : ∀ n ∈ (Bytes.pieces limbWidth count (data.drop limbWidth)).map Bytes.toNat,
        n < q
    · refine ⟨Bytes.toNat (data.take limbWidth),
        (Bytes.numbers limbWidth count (data.drop limbWidth)).map Fq.ofNat, ?_, ?_, ?_⟩
      · have hfirst : (data.take limbWidth).length = limbWidth := by
          rw [List.length_take, hlength, Nat.mul_succ]
          omega
        have hlt := Bytes.toNat_lt (data.take limbWidth)
        rwa [hfirst] at hlt
      · rw [hcount, List.length_map, Bytes.length_numbers]
      · rw [Bytes.numbers, map_val_ofNat hbelow]
        exact hspell.symm
    · rw [if_neg hbelow] at h
      cases h
  · rw [decodeCompressed, if_pos hlength] at h
    cases h

namespace Laws

variable (L : C.Laws)

include L

omit [DecidableEq F] in
/-- A coordinate has a first limb. -/
theorem exists_toLimbs_eq_cons (a : F) : ∃ first rest, C.toLimbs a = first :: rest := by
  obtain ⟨count, hcount⟩ := C.exists_limbCount_eq
  have hlength := L.length_toLimbs a
  cases hlimbs : C.toLimbs a with
  | nil =>
    rw [hlimbs, hcount] at hlength
    cases hlength
  | cons first rest => exact ⟨first, rest, rfl⟩

/-- A member is lifted from its abscissa and the half that its ordinate is in. -/
theorem lift?_eq_some_iff {x : F} {sort : Bool} {p : Point F} (hp : C.Member p) (hz : p.z ≠ 0) :
    C.lift? x sort = some p ↔ p.z = 1 ∧ p.x = x ∧ C.isUpperHalf p.y = sort := by
  have hy : p.y ≠ 0 := (L.coordinates_ne_zero hp hz).2
  constructor
  · intro h
    rw [lift?, Option.map_eq_some_iff] at h
    obtain ⟨r, -, rfl⟩ := h
    refine ⟨rfl, rfl, ?_⟩
    by_cases hhalf : C.isUpperHalf r = sort
    · rw [if_pos hhalf]
      exact hhalf
    · dsimp only at hy
      rw [if_neg hhalf] at hy ⊢
      rw [L.isUpperHalf_neg (neg_ne_zero.mp hy), Bool.not_eq]
      exact hhalf
  · obtain ⟨px, y, z⟩ := p
    rintro ⟨hone, hx, hhalf⟩
    dsimp only at hone hx hhalf hy
    subst hone hx hhalf
    obtain ⟨r, hroot, hr⟩ := L.root?_mul_self hy
    rw [lift?, ← L.mul_self_of_member hp, hroot, Option.map_some]
    -- the root that was found is one of the two ordinates, and only one is in the right half
    rcases hr with rfl | rfl
    · rw [if_pos rfl]
    · rw [L.isUpperHalf_neg hy, if_neg (Bool.not_ne_self _), neg_neg]

/-- What the compressed decoder reads is the normal form of a member, and what it read is what is written
    for it. -/
theorem encodeCompressed_of_decodeCompressed {data : Bytes} {allowIdentity : Bool} {p : Point F}
    (h : C.decodeCompressed data allowIdentity = .ok p) :
    C.encodeCompressed p = .ok data ∧ p.normal = p ∧ C.Member p ∧
      (p.isInfinity = true → allowIdentity = true) := by
  obtain ⟨first, rest, hfirst, hcount, hdata⟩ := exists_spell_of_decodeCompressed h
  rw [hdata, decodeCompressed_spell hfirst hcount] at h
  obtain ⟨r, hr, hvalid⟩ := bind_eq_ok.mp h
  obtain ⟨rfl, hmember, hallowed⟩ := L.validate_eq_ok_iff.mp hvalid
  rw [hdata]
  rcases decompress_eq_ok hfirst hr with ⟨hflags, hzero, hp⟩ | ⟨value, sort, hflags, hlift⟩
  · have hrest : rest.map Fq.val = List.replicate rest.length 0 := by
      refine List.eq_replicate_iff.mpr ⟨List.length_map _, fun n hn => ?_⟩
      obtain ⟨a, ha, rfl⟩ := List.mem_map.mp hn
      rw [hzero a ha]
      rfl
    rw [hp] at hmember hallowed ⊢
    refine ⟨?_, Point.normal_infinity, hmember, hallowed⟩
    rw [encodeCompressed_of_infinite rfl, compressedIdentity_eq_spell hcount, hrest, hflags]
  · have hz : p.z ≠ 0 := by
      rw [z_of_lift? hlift]
      exact one_ne_zero
    obtain ⟨hone, hx, hhalf⟩ := (L.lift?_eq_some_iff hmember hz).mp hlift
    have hlimbs : C.toLimbs p.x = value :: rest := by
      rw [hx]
      exact L.toLimbs_ofLimbs hcount.symm
    refine ⟨?_, Point.normal_of_z_eq_one hone, hmember, hallowed⟩
    rw [encodeCompressed_of_finite hmember hz, hone, div_one, div_one, compress_eq_spell hlimbs,
      hhalf, hflags]

/-- What is written for the normal form of a member is decoded. -/
theorem decodeCompressed_of_encodeCompressed {data : Bytes} {allowIdentity : Bool} {p : Point F}
    (hencode : C.encodeCompressed p = .ok data) (hnormal : p.normal = p) (hmember : C.Member p)
    (hallowed : p.isInfinity = true → allowIdentity = true) :
    C.decodeCompressed data allowIdentity = .ok p := by
  obtain ⟨count, hcount⟩ := C.exists_limbCount_eq
  by_cases hz : p.z = 0
  · have hp : p = Point.infinity := hnormal.symm.trans (Point.normal_of_infinite hz)
    let rest : List Fq := List.replicate count 0
    have hrest : rest.map Fq.val = List.replicate count 0 := List.map_replicate
    have hlength : C.limbCount = rest.length + 1 := by rw [hcount, List.length_replicate]
    rw [encodeCompressed_of_infinite hz, compressedIdentity_eq_spell hcount, ← hrest] at hencode
    rw [← Except.ok.inj hencode, decodeCompressed_spell (by decide +kernel) hlength,
      decompress_identityLimb fun _ h => (List.mem_replicate.mp h).2, ← hp]
    exact L.validate_eq_ok_iff.mpr ⟨rfl, hmember, hallowed⟩
  · obtain ⟨value, rest, hlimbs⟩ := L.exists_toLimbs_eq_cons p.x
    have hlength : C.limbCount = rest.length + 1 := by
      rw [← L.length_toLimbs p.x, hlimbs, List.length_cons]
    -- the limbs are those of a nonzero abscissa, so they are not taken for the identity's
    have hnonzero : ¬ ∀ limb ∈ value :: rest, limb = 0 := by
      rw [← hlimbs]
      exact fun h => (L.coordinates_ne_zero hmember hz).1 (L.eq_zero_of_toLimbs h)
    have hone : p.z = 1 := by
      rw [← hnormal, Point.normal_of_finite hz]
    have hlift : C.lift? (C.ofLimbs (value :: rest)) (C.isUpperHalf p.y) = some p := by
      refine (L.lift?_eq_some_iff hmember hz).mpr ⟨hone, ?_, rfl⟩
      rw [← hlimbs, L.ofLimbs_toLimbs]
    rw [encodeCompressed_of_finite hmember hz, hone, div_one, div_one,
      compress_eq_spell hlimbs] at hencode
    rw [← Except.ok.inj hencode, decodeCompressed_spell (flagged_lt _ _) hlength,
      decompress_flagged _ hnonzero, hlift]
    exact L.validate_eq_ok_iff.mpr ⟨rfl, hmember, hallowed⟩

/-- The compressed decoder accepts what is written for members, and reads it as their normal forms. -/
theorem exact_compressed : C.Exact .compressed := by
  intro data allowIdentity p
  constructor
  · exact L.encodeCompressed_of_decodeCompressed
  · rintro ⟨hencode, hnormal, hmember, hallowed⟩
    exact L.decodeCompressed_of_encodeCompressed hencode hnormal hmember hallowed

end Laws

end Coding

/-! ## The compressed forms of the two groups -/

/-- The compressed form of the second group is canonical. -/
theorem canonical_compressed_g2 : bls12381.group₂.Canonical coding₂.Member .compressed :=
  laws₂.canonical_of_exact laws₂.exact_compressed

/-- The double of a generator, whose triple is not normal, is written, read back and written the same
    way again. -/
theorem canonical_compressed_g2_doubled_generator :
    ∃ data r, bls12381.group₂.encode .compressed generator₂.double = .ok data ∧
      bls12381.group₂.decode .compressed data false = .ok r ∧
      bls12381.group₂.same r generator₂.double = true ∧
      bls12381.group₂.encode .compressed r = .ok data := by
  obtain ⟨data, r, hdata, hr, hsame, -⟩ := canonical_compressed_g2.decode_encode
    (reading₂.valid_double member_generator₂) (fun h => absurd h (by decide +kernel))
  exact ⟨data, r, hdata, hr, hsame, (canonical_compressed_g2.encode_decode hr).1⟩

/-- The compressed form of the first group is canonical. -/
theorem canonical_compressed_g1 : bls12381.group₁.Canonical coding₁.Member .compressed :=
  laws₁.canonical_of_exact laws₁.exact_compressed

/-- The double of the generator is written, read back and written the same way again. -/
theorem canonical_compressed_g1_doubled_generator :
    ∃ data r, bls12381.group₁.encode .compressed generator.double = .ok data ∧
      bls12381.group₁.decode .compressed data false = .ok r ∧
      bls12381.group₁.same r generator.double = true ∧
      bls12381.group₁.encode .compressed r = .ok data := by
  obtain ⟨data, r, hdata, hr, hsame, -⟩ := canonical_compressed_g1.decode_encode
    (reading₁.valid_double member_generator) (fun h => absurd h (by decide +kernel))
  exact ⟨data, r, hdata, hr, hsame, (canonical_compressed_g1.encode_decode hr).1⟩

end AggSig
