/-
  What the two encodings of a point have in common.

  The affine encoding spells the limbs of both coordinates, and the compressed one those of the abscissa
  with flags on top.  No limb reaches the flags (`exists_eq_cons_flagged`), so without its flags the
  compressed encoding is the first half of the affine one.  The sort flag is left to tell the second half:
  it compares the ordinate with its opposite, by the first of its numbers that is not zero
  (`Coding.Exceeds`), so that it is set in exactly one of the encodings of a point and of its opposite.

  `Group.Agrees` is all of this about one point, and it holds of every finite point of the two curves
  (`encodings_agree`), in the subgroup or not.
-/
import AggSig.Proofs.Coding.Affine
import AggSig.Proofs.Coding.Compressed

namespace AggSig

namespace Coding

/-- The numbers of the ordinate in an affine encoding: they are its second half, the imaginary part of an
    ordinate of the second group first. -/
def ordinateNumbers (data : Bytes) : List Nat :=
  Bytes.numbers limbWidth (data.length / 2 / limbWidth) (data.drop (data.length / 2))

/-- Of two rows of numbers the first one is the larger, if the first of its numbers that is not zero is
    larger than the number in the same place of the other. -/
def Exceeds : List Nat → List Nat → Prop
  | n :: ns, m :: ms => if n = 0 then Exceeds ns ms else m < n
  | _, _ => False

end Coding

open Coding

/-- A compressed encoding of a point is the abscissa of its affine encoding with flags on top. -/
structure Group.Agrees {F : Type} [Zero F] [Neg F] (G : Group (Point F)) (p : Point F) (data : Bytes) :
    Prop where
  length_eq : (G.encodeAffine p).length = 2 * data.length
  abscissa : (data.headD 0 &&& 0x1f) :: data.tail = (G.encodeAffine p).take data.length
  compression : data.headD 0 &&& 0x80 ≠ 0
  infinity : data.headD 0 &&& 0x40 = 0
  /-- The sort flag is set if the ordinate is larger than its opposite. -/
  sort : data.headD 0 &&& 0x20 ≠ 0 ↔
    Exceeds (ordinateNumbers (G.encodeAffine p)) (ordinateNumbers (G.encodeAffine p.neg))
  /-- The opposite has another sort flag, if it is another point, and all else in common. -/
  opposite : p.y ≠ 0 → G.encode .compressed p.neg = .ok ((data.headD 0 ^^^ 0x20) :: data.tail)

/-! ## The first byte -/

/-- The flags of a compressed encoding that is not the identity's. -/
def flagByte (sort : Bool) : UInt8 := if sort then 0xa0 else 0x80

/-- Flags on top of a byte that has none are told apart from it and from each other. -/
theorem or_flagByte_spec (sort : Bool) : ∀ b : UInt8, b &&& 0xe0 = 0 →
    (b ||| flagByte sort).toNat = b.toNat + (if sort then 0xa0 else 0x80) ∧
      (b ||| flagByte sort) &&& 0x1f = b ∧ (b ||| flagByte sort) &&& 0x80 ≠ 0 ∧
      (b ||| flagByte sort) &&& 0x40 = 0 ∧ ((b ||| flagByte sort) &&& 0x20 ≠ 0 ↔ sort = true) ∧
      b ||| flagByte (!sort) = (b ||| flagByte sort) ^^^ 0x20 := by
  cases sort <;> exact forall_byte (by decide +kernel)

namespace Coding

/-- The top byte of a limb has room for the flags, and they are all that a flagged limb has more. -/
theorem exists_eq_cons_flagged (a : Fq) :
    ∃ b bs, Bytes.ofNat limbWidth a.val = b :: bs ∧ b &&& 0xe0 = 0 ∧
      ∀ sort, Bytes.ofNat limbWidth (flagged a.val sort) = (b ||| flagByte sort) :: bs := by
  have hsort : sortBit = 32 * 256 ^ 47 := by decide +kernel
  cases hlimb : Bytes.ofNat limbWidth a.val with
  | nil => cases (Bytes.length_ofNat limbWidth a.val).symm.trans (congrArg List.length hlimb)
  | cons b bs =>
    have hlength : (b :: bs).length = limbWidth := by rw [← hlimb, Bytes.length_ofNat]
    have hbs : bs.length = 47 := Nat.succ.inj hlength
    -- the first byte counts for the 47 bytes behind it, so that a flag is a power of the base in it
    have hvalue : a.val = b.toNat * 256 ^ 47 + Bytes.toNat bs := by
      rw [← hbs, ← Bytes.toNat_cons, ← hlimb, Bytes.toNat_ofNat _ _ (limb_lt a)]
    have hclear : b &&& 0xe0 = 0 := by
      rw [flags_clear_iff_lt]
      have hlt := limb_lt_sortBit a
      omega
    refine ⟨b, bs, rfl, hclear, fun sort => ?_⟩
    obtain ⟨htop, -⟩ := or_flagByte_spec sort b hclear
    have hflagged : flagged a.val sort = Bytes.toNat ((b ||| flagByte sort) :: bs) := by
      rw [Bytes.toNat_cons, htop, hbs, flagged, compressionBit_eq, hsort, hvalue]
      cases sort <;> simp <;> ring
    rw [hflagged]
    exact Bytes.ofNat_toNat hlength

/-! ## One point -/

variable {F : Type} [Field F] [DecidableEq F] {C : Coding F}

namespace Laws

variable (L : C.Laws)

include L

omit [DecidableEq F] in

theorem length_writeLimbs (a : F) : (C.writeLimbs a).length = C.side.width .compressed := by
  rw [writeLimbs_eq_spell, Bytes.length_spell, List.length_map, L.length_toLimbs, width_compressed]

theorem length_encodeAffine_of_finite {p : Point F} (hz : p.z ≠ 0) :
    (C.encodeAffine p).length = 2 * C.side.width .compressed := by
  rw [encodeAffine_of_finite hz, List.length_append, L.length_writeLimbs, L.length_writeLimbs, two_mul]

/-- The second half of an affine encoding is the ordinate. -/
theorem ordinateNumbers_encodeAffine {p : Point F} (hz : p.z ≠ 0) :
    ordinateNumbers (C.encodeAffine p) = (C.toLimbs (p.y / p.z)).map Fq.val := by
  have hhalf : (C.encodeAffine p).length / 2 = C.side.width .compressed := by
    rw [L.length_encodeAffine_of_finite hz]
    exact Nat.mul_div_cancel_left _ (by decide)
  have hcount : C.side.width .compressed / limbWidth = ((C.toLimbs (p.y / p.z)).map Fq.val).length := by
    rw [List.length_map, L.length_toLimbs]
    rfl
  have hfit : ∀ n ∈ (C.toLimbs (p.y / p.z)).map Fq.val, n < 256 ^ limbWidth := by
    intro n hn
    obtain ⟨a, -, rfl⟩ := List.mem_map.mp hn
    exact limb_lt a
  rw [ordinateNumbers, hhalf, hcount, encodeAffine_of_finite hz, List.drop_left' (L.length_writeLimbs _),
    writeLimbs_eq_spell]
  exact Bytes.numbers_spell hfit

/-- The encodings of a finite point agree, if the half that its ordinate is in is told by the limbs. -/
theorem exists_agrees {p : Point F} (hcurve : p.onCurve C.constant = true) (hz : p.z ≠ 0)
    (hhalf : ∀ y, C.isUpperHalf y = true ↔
      Exceeds ((C.toLimbs y).map Fq.val) ((C.toLimbs (-y)).map Fq.val)) :
    ∃ data, C.group.encode .compressed p = .ok data ∧ C.group.Agrees p data := by
  obtain ⟨first, rest, hlimbs⟩ := L.exists_toLimbs_eq_cons (p.x / p.z)
  obtain ⟨b, bs, hfirst, hclear, hflagged⟩ := exists_eq_cons_flagged first
  -- both forms start with the limbs of the abscissa and differ in the first byte only
  have hwrite : C.writeLimbs (p.x / p.z) = b :: (bs ++ Bytes.spell limbWidth (rest.map Fq.val)) := by
    rw [writeLimbs_eq_spell, hlimbs, List.map_cons, Bytes.spell_cons, hfirst, List.cons_append]
  have hcompress : ∀ y, C.compress (p.x / p.z) y =
      (b ||| flagByte (C.isUpperHalf y)) :: (bs ++ Bytes.spell limbWidth (rest.map Fq.val)) := by
    intro y
    rw [compress_eq_spell hlimbs, Bytes.spell_cons, hflagged, List.cons_append]
  generalize bs ++ Bytes.spell limbWidth (rest.map Fq.val) = tail at hwrite hcompress
  obtain ⟨-, hmask, hcompression, hinfinity, hsort, hflip⟩ :=
    or_flagByte_spec (C.isUpperHalf (p.y / p.z)) b hclear
  have hlength : C.side.width .compressed = tail.length + 1 := by
    rw [← L.length_writeLimbs (p.x / p.z), hwrite, List.length_cons]
  have hneg : p.neg.y / p.neg.z = -(p.y / p.z) := neg_div _ _
  refine ⟨_, encodeCompressed_of_onCurve hcurve hz, ?_⟩
  rw [hcompress]
  refine ⟨?_, ?_, hcompression, hinfinity, ?_, fun hy => ?_⟩
  · exact (L.length_encodeAffine_of_finite hz).trans (congrArg (2 * ·) hlength)
  · show ((b ||| flagByte _) &&& 0x1f) :: tail = (C.encodeAffine p).take (tail.length + 1)
    rw [hmask, encodeAffine_of_finite hz, hwrite]
    exact (List.take_left' List.length_cons).symm
  · show (b ||| flagByte _) &&& 0x20 ≠ 0 ↔
      Exceeds (ordinateNumbers (C.encodeAffine p)) (ordinateNumbers (C.encodeAffine p.neg))
    rw [L.ordinateNumbers_encodeAffine hz, L.ordinateNumbers_encodeAffine (p := p.neg) hz, hneg, hsort]
    exact hhalf _
  · have hcurve' : p.neg.onCurve C.constant = true := by
      rw [L.constant_eq] at hcurve ⊢
      exact (L.curve.neg_spec hcurve).1
    have hopposite : C.compress (p.x / p.z) (p.neg.y / p.neg.z) =
        ((b ||| flagByte (C.isUpperHalf (p.y / p.z))) ^^^ 0x20) :: tail := by
      rw [hneg, hcompress, L.isUpperHalf_neg (div_ne_zero hy hz), hflip]
    exact (encodeCompressed_of_onCurve hcurve' hz).trans (congrArg Except.ok hopposite)

end Laws

end Coding

/-! ## The two groups -/

/-- An element is in the upper half if it is the larger one of itself and its opposite. -/
theorem Fq.isUpperHalf_iff (y : Fq) : y.isUpperHalf = true ↔ y.val ≠ 0 ∧ (-y).val < y.val := by
  have hodd : q % 2 = 1 := by decide
  have hlt := y.lt
  rw [Fq.isUpperHalf, decide_eq_true_iff, Fq.val_neg]
  by_cases hzero : y.val = 0
  · omega
  · rw [Nat.mod_eq_of_lt (by omega)]
    omega

/-- In the first group the ordinate is compared as a number. -/
theorem isUpperHalf_iff_exceeds₁ (y : Fq) : coding₁.isUpperHalf y = true ↔
    Exceeds ((coding₁.toLimbs y).map Fq.val) ((coding₁.toLimbs (-y)).map Fq.val) := by
  show y.isUpperHalf = true ↔ if y.val = 0 then False else (-y).val < y.val
  rw [Fq.isUpperHalf_iff]
  split <;> simp [*]

/-- In the second group the imaginary parts are compared, and the real parts if there are none. -/
theorem isUpperHalf_iff_exceeds₂ (y : Fq2) : coding₂.isUpperHalf y = true ↔
    Exceeds ((coding₂.toLimbs y).map Fq.val) ((coding₂.toLimbs (-y)).map Fq.val) := by
  show y.isUpperHalf = true ↔ if y.im.val = 0 then
    if y.re.val = 0 then False else (-y).re.val < y.re.val else (-y).im.val < y.im.val
  rw [Fq2.isUpperHalf, Fq2.re_neg, Fq2.im_neg]
  by_cases him : y.im.val = 0
  · rw [if_neg (by omega), if_pos him, Fq.isUpperHalf_iff]
    split <;> simp [*]
  · rw [if_pos (Nat.pos_of_ne_zero him), if_neg him, Fq.isUpperHalf_iff]
    exact and_iff_right him

/-- The two encodings of a point agree.  For every finite point of either curve, in whatever triple, the
    compressed encoding without its flags is the first half of the affine one, it has the compression flag
    and not the infinity flag, and the sort flag if the ordinate in the second half is larger than its
    opposite.  So the encoding of the opposite differs in the sort flag and nowhere else. -/
theorem encodings_agree :
    (∀ p : Point Fq, p.onCurve b₁ = true → p.isInfinity = false →
      ∃ data, bls12381.group₁.encode .compressed p = .ok data ∧ bls12381.group₁.Agrees p data) ∧
    ∀ p : Point Fq2, p.onCurve b₂ = true → p.isInfinity = false →
      ∃ data, bls12381.group₂.encode .compressed p = .ok data ∧ bls12381.group₂.Agrees p data := by
  constructor
  · intro p hcurve hfinite
    exact laws₁.exists_agrees hcurve (of_decide_eq_false hfinite) isUpperHalf_iff_exceeds₁
  · intro p hcurve hfinite
    exact laws₂.exists_agrees hcurve (of_decide_eq_false hfinite) isUpperHalf_iff_exceeds₂

/-- The encodings of the doubled generators, whose triples are not normal, agree, and those of their
    opposites differ in the sort flag. -/
theorem encodings_agree_doubled_generators :
    (∃ data, bls12381.group₁.encode .compressed generator.double = .ok data ∧
      bls12381.group₁.Agrees generator.double data ∧
      bls12381.group₁.encode .compressed generator.double.neg =
        .ok ((data.headD 0 ^^^ 0x20) :: data.tail)) ∧
    ∃ data, bls12381.group₂.encode .compressed generator₂.double = .ok data ∧
      bls12381.group₂.Agrees generator₂.double data ∧
      bls12381.group₂.encode .compressed generator₂.double.neg =
        .ok ((data.headD 0 ^^^ 0x20) :: data.tail) := by
  obtain ⟨data, hdata, hagrees⟩ :=
    encodings_agree.1 generator.double (by decide +kernel) (by decide +kernel)
  obtain ⟨data', hdata', hagrees'⟩ :=
    encodings_agree.2 generator₂.double (by decide +kernel) (by decide +kernel)
  exact ⟨⟨data, hdata, hagrees, hagrees.opposite (by decide +kernel)⟩,
    data', hdata', hagrees', hagrees'.opposite (by decide +kernel)⟩

end AggSig
