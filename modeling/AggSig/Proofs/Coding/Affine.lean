/-
  The affine encodings: which byte strings are accepted, as what, and why the others are refused.

  A byte string of the right width either is the encoding of the identity, or it spells two coordinates:
  no flag is set and every number is below the field modulus.  Anything else is no encoding
  (`decodeAffine_of_not_spells`).  What spells coordinates is what is written for the point with these
  coordinates (`encodeAffine_affinePoint`), so an affine encoding is canonical.

  `Coding.rejection` lists the checks of an affine encoding in their order, each with the kind of error
  that a failure of it is.
-/
import AggSig.Proofs.Bytes
import AggSig.Proofs.Coding.Canonical

namespace AggSig

/-! ## The flags of a byte -/

/-- What holds of all numbers below 256 holds of all bytes. -/
theorem forall_byte {p : UInt8 → Prop} (h : ∀ n < 256, p (UInt8.ofNat n)) (b : UInt8) : p b := by
  rw [← UInt8.ofNat_toNat (x := b)]
  exact h b.toNat b.toNat_lt

theorem flags_clear_iff : ∀ b : UInt8,
    b &&& 0xe0 = 0 ↔ b &&& 0x80 = 0 ∧ b &&& 0x20 = 0 ∧ b &&& 0x40 = 0 :=
  forall_byte (by decide +kernel)

theorem flags_clear_iff_lt : ∀ b : UInt8, b &&& 0xe0 = 0 ↔ b.toNat < 32 :=
  forall_byte (by decide +kernel)

theorem and_mask_of_flags_clear : ∀ b : UInt8, b &&& 0xe0 = 0 → b &&& 0x1f = b :=
  forall_byte (by decide +kernel)

/-- The only byte that has nothing but the flag for the identity. -/
theorem eq_infinity_flag : ∀ b : UInt8,
    b &&& 0x80 = 0 → b &&& 0x20 = 0 → b &&& 0x40 ≠ 0 → b &&& 0x1f = 0 → b = 0x40 :=
  forall_byte (by decide +kernel)

namespace Coding

/-- No flag is set in a byte string exactly if its first numeral is below the lowest flag. -/
theorem flags_clear_iff_first_lt {b : UInt8} {rest : Bytes} (h : limbWidth ≤ (b :: rest).length) :
    b &&& 0xe0 = 0 ↔ Bytes.toNat ((b :: rest).take limbWidth) < sortBit := by
  have hlength : (rest.take 47).length = 47 := by
    rw [List.length_take]
    simp only [limbWidth, List.length_cons] at h
    omega
  -- the first byte counts for the 47 behind it
  have hvalue : Bytes.toNat ((b :: rest).take limbWidth) =
      b.toNat * 256 ^ 47 + Bytes.toNat (rest.take 47) := by
    have htake : (b :: rest).take limbWidth = b :: rest.take 47 := rfl
    rw [htake, Bytes.toNat_cons, hlength]
  have hlt : Bytes.toNat (rest.take 47) < 256 ^ 47 := by
    have := Bytes.toNat_lt (rest.take 47)
    rwa [hlength] at this
  have hsort : sortBit = 32 * 256 ^ 47 := by decide +kernel
  rw [flags_clear_iff_lt, hvalue, hsort]
  omega

variable {F : Type} {C : Coding F}

theorem length_affineIdentity : C.affineIdentity.length = C.side.width .affine := by
  rw [affineIdentity, List.length_cons, Bytes.length_zeros]
  cases C.side <;> rfl

/-- Bytes of the width have a first one, and a limb. -/
theorem exists_eq_cons {data : Bytes} (h : data.length = C.side.width .affine) :
    ∃ b rest, data = b :: rest ∧ limbWidth ≤ (b :: rest).length := by
  cases data with
  | nil =>
    cases hside : C.side <;> rw [hside] at h <;> exact absurd h (by decide)
  | cons b rest =>
    refine ⟨b, rest, rfl, ?_⟩
    rw [h]
    cases C.side <;> decide

/-- Without flags the body is the byte string itself. -/
theorem body_of_flags_clear {data : Bytes} (hlength : data.length = C.side.width .affine)
    (hflags : data.headD 0 &&& 0xe0 = 0) : (data.headD 0 &&& 0x1f) :: data.tail = data := by
  obtain ⟨b, rest, rfl, -⟩ := exists_eq_cons hlength
  exact congrArg (· :: rest) (and_mask_of_flags_clear b hflags)

/-- A byte string with the infinity flag alone and nothing but zeros otherwise. -/
theorem eq_affineIdentity {data : Bytes} (hlength : data.length = C.side.width .affine)
    (h80 : data.headD 0 &&& 0x80 = 0) (h20 : data.headD 0 &&& 0x20 = 0)
    (h40 : data.headD 0 &&& 0x40 ≠ 0)
    (hbody : ¬ ((data.headD 0 &&& 0x1f) :: data.tail).any (· ≠ 0) = true) :
    data = C.affineIdentity := by
  obtain ⟨b, rest, rfl, -⟩ := exists_eq_cons hlength
  -- nothing but the flag is set, and nothing but zeros follows
  have hzero : ∀ c ∈ (b &&& 0x1f) :: rest, c = 0 := by
    intro c hc
    by_contra hne
    exact hbody (List.any_eq_true.mpr ⟨c, hc, decide_eq_true hne⟩)
  have hb : b = 0x40 := eq_infinity_flag b h80 h20 h40 (hzero _ List.mem_cons_self)
  have hrest : rest = Bytes.zeros rest.length :=
    List.eq_replicate_of_mem fun c hc => hzero c (List.mem_cons_of_mem _ hc)
  rw [affineIdentity, ← hlength, hb, List.length_cons, Nat.add_sub_cancel, ← hrest]

/-! ## What a byte string spells -/

variable (C)

/-- The numbers in a byte string of the affine width. -/
def affineNumbers (data : Bytes) : List Nat := Bytes.numbers limbWidth (2 * C.limbCount) data

/-- Whether no flag is set and every number is below the field modulus. -/
def SpellsCoordinates (data : Bytes) : Prop :=
  data.headD 0 &&& 0xe0 = 0 ∧ ∀ n ∈ C.affineNumbers data, n < q

instance (data : Bytes) : Decidable (C.SpellsCoordinates data) :=
  inferInstanceAs (Decidable (_ ∧ _))

variable [Field F] [DecidableEq F]

/-- The point whose coordinates are spelled. -/
def affinePoint (data : Bytes) : Point F where
  x := C.ofLimbs (((C.affineNumbers data).map Fq.ofNat).take C.limbCount)
  y := C.ofLimbs (((C.affineNumbers data).map Fq.ofNat).drop C.limbCount)
  z := 1

/-- The kind of error of the first check that an affine encoding fails: of its width, of its flags and
    numbers, of the identity, of the curve, and of the subgroup. -/
def rejection (data : Bytes) (allowIdentity : Bool) : Option ErrorKind :=
  if data.length ≠ C.side.width .affine then some .invalidLength
  else if data ≠ C.affineIdentity ∧ ¬ C.SpellsCoordinates data then some .invalidPointEncoding
  else if data = C.affineIdentity ∧ allowIdentity = false then some .identityPoint
  else if data ≠ C.affineIdentity ∧ (C.affinePoint data).onCurve C.constant = false then
    some .pointNotOnCurve
  else if data ≠ C.affineIdentity ∧
      Point.law.hasOrder groupOrder (C.affinePoint data) = false then some .pointNotInSubgroup
  else none

/-! ## Reading -/

variable {C}

theorem affinePoint_finite {data : Bytes} : ¬ (C.affinePoint data).isInfinity = true :=
  fun h => one_ne_zero (Point.isInfinity_iff.mp h)

/-- Bytes of another width are refused as such. -/
theorem decodeAffine_of_length_ne {data : Bytes} (h : data.length ≠ C.side.width .affine)
    (allowIdentity : Bool) :
    C.decodeAffine data allowIdentity =
      .error (.wrongWidth (.point C.side .affine) data.length) :=
  if_pos h

/-- The encoding of the identity is read as the point at infinity, which is then checked. -/
theorem decodeAffine_affineIdentity (allowIdentity : Bool) :
    C.decodeAffine C.affineIdentity allowIdentity =
      C.validate .affine allowIdentity Point.infinity := by
  have hhead : C.affineIdentity.headD 0 = 0x40 := rfl
  have hbody : ¬ ((C.affineIdentity.headD 0 &&& 0x1f) :: C.affineIdentity.tail).any (· ≠ 0) = true := by
    intro h
    obtain ⟨b, hb, hne⟩ := List.any_eq_true.mp h
    have hzero : b = 0 := by
      rcases List.mem_cons.mp hb with rfl | hb
      · rw [hhead]; decide
      · exact (List.mem_replicate.mp hb).2
    exact of_decide_eq_true hne hzero
  rw [decodeAffine, if_neg (not_not.mpr length_affineIdentity)]
  dsimp only
  rw [if_neg (by rw [hhead]; decide), if_neg (by rw [hhead]; decide), if_pos (by rw [hhead]; decide),
    if_neg hbody]

/-- Once no flag is set, the numbers are read as coordinates. -/
theorem decodeAffine_of_flags_clear {data : Bytes} (hlength : data.length = C.side.width .affine)
    (hflags : data.headD 0 &&& 0xe0 = 0) (allowIdentity : Bool) :
    C.decodeAffine data allowIdentity =
      if ∀ n ∈ C.affineNumbers data, n < q then C.validate .affine allowIdentity (C.affinePoint data)
      else .error (.coordinateTooLarge C.side .affine) := by
  obtain ⟨h80, h20, h40⟩ := (flags_clear_iff (data.headD 0)).mp hflags
  rw [decodeAffine, if_neg (not_not.mpr hlength)]
  dsimp only
  rw [if_neg (not_not.mpr h80), if_neg (not_not.mpr h20), if_neg (not_not.mpr h40),
    body_of_flags_clear hlength hflags, mapM_readLimb]
  show (if ∀ n ∈ C.affineNumbers data, n < q then _ else _ : Except _ _) >>= _ = _
  split <;> rfl

/-- Bytes that spell coordinates are read as the point that has them, which is then checked. -/
theorem decodeAffine_of_spells {data : Bytes} (hlength : data.length = C.side.width .affine)
    (h : C.SpellsCoordinates data) (allowIdentity : Bool) :
    C.decodeAffine data allowIdentity = C.validate .affine allowIdentity (C.affinePoint data) := by
  rw [decodeAffine_of_flags_clear hlength h.1, if_pos h.2]

/-- What neither is the identity's encoding nor spells coordinates is no encoding. -/
theorem decodeAffine_of_not_spells {data : Bytes} (hlength : data.length = C.side.width .affine)
    (hne : data ≠ C.affineIdentity) (h : ¬ C.SpellsCoordinates data) (allowIdentity : Bool) :
    ∃ failure, C.decodeAffine data allowIdentity = .error failure ∧
      failure.category = .error .invalidPointEncoding := by
  by_cases hflags : data.headD 0 &&& 0xe0 = 0
  · have hlarge : ¬ ∀ n ∈ C.affineNumbers data, n < q := fun hn => h ⟨hflags, hn⟩
    rw [decodeAffine_of_flags_clear hlength hflags, if_neg hlarge]
    exact ⟨_, rfl, rfl⟩
  · rw [decodeAffine, if_neg (not_not.mpr hlength)]
    dsimp only
    by_cases h80 : data.headD 0 &&& 0x80 = 0
    · by_cases h20 : data.headD 0 &&& 0x20 = 0
      · -- only the infinity flag is left, so the rest cannot be all zero
        have h40 : data.headD 0 &&& 0x40 ≠ 0 :=
          fun h40 => hflags ((flags_clear_iff _).mpr ⟨h80, h20, h40⟩)
        have hbody : ((data.headD 0 &&& 0x1f) :: data.tail).any (· ≠ 0) = true := by
          by_contra hzero
          exact hne (eq_affineIdentity hlength h80 h20 h40 hzero)
        rw [if_neg (not_not.mpr h80), if_neg (not_not.mpr h20), if_pos h40, if_pos hbody]
        exact ⟨_, rfl, rfl⟩
      · rw [if_neg (not_not.mpr h80), if_pos h20]
        exact ⟨_, rfl, rfl⟩
    · rw [if_pos h80]
      exact ⟨_, rfl, rfl⟩

/-! ## Writing -/

omit [Field F] [DecidableEq F] in

theorem writeLimbs_eq_spell (a : F) :
    C.writeLimbs a = Bytes.spell limbWidth ((C.toLimbs a).map Fq.val) := by
  rw [writeLimbs, Bytes.spell, List.flatMap_map]

namespace Laws

variable (L : C.Laws)

include L

/-- What spells coordinates is what is written for the point that has them. -/
theorem encodeAffine_affinePoint {data : Bytes} (hlength : data.length = C.side.width .affine)
    (h : C.SpellsCoordinates data) : C.encodeAffine (C.affinePoint data) = data := by
  rw [width_affine] at hlength
  have htake : (((C.affineNumbers data).map Fq.ofNat).take C.limbCount).length = C.limbCount := by
    rw [List.length_take, List.length_map, affineNumbers, Bytes.length_numbers]
    omega
  have hdrop : (((C.affineNumbers data).map Fq.ofNat).drop C.limbCount).length = C.limbCount := by
    rw [List.length_drop, List.length_map, affineNumbers, Bytes.length_numbers]
    omega
  have hfinite : (C.affinePoint data).z ≠ 0 := one_ne_zero
  rw [encodeAffine_of_finite hfinite]
  simp only [affinePoint, div_one]
  rw [writeLimbs_eq_spell, writeLimbs_eq_spell, L.toLimbs_ofLimbs htake, L.toLimbs_ofLimbs hdrop,
    ← Bytes.spell_append, ← List.map_append, List.take_append_drop, map_val_ofNat h.2, affineNumbers,
    Bytes.spell_numbers hlength]

/-- What is written for a finite point spells its coordinates. -/
theorem spells_encodeAffine (x y : F) :
    (C.encodeAffine ⟨x, y, 1⟩).length = C.side.width .affine ∧
      C.SpellsCoordinates (C.encodeAffine ⟨x, y, 1⟩) ∧
      C.affinePoint (C.encodeAffine ⟨x, y, 1⟩) = ⟨x, y, 1⟩ := by
  let limbs := C.toLimbs x ++ C.toLimbs y
  have hcount : (limbs.map Fq.val).length = 2 * C.limbCount := by
    rw [List.length_map, List.length_append, L.length_toLimbs, L.length_toLimbs]
    omega
  have hdata : C.encodeAffine ⟨x, y, 1⟩ = Bytes.spell limbWidth (limbs.map Fq.val) := by
    rw [encodeAffine_of_finite one_ne_zero, div_one, div_one, writeLimbs_eq_spell,
      writeLimbs_eq_spell, ← Bytes.spell_append, ← List.map_append]
  have hnumbers : C.affineNumbers (C.encodeAffine ⟨x, y, 1⟩) = limbs.map Fq.val := by
    have hfit : ∀ n ∈ limbs.map Fq.val, n < 256 ^ limbWidth := by
      intro n hn
      obtain ⟨a, -, rfl⟩ := List.mem_map.mp hn
      exact limb_lt a
    rw [affineNumbers, hdata, ← hcount]
    exact Bytes.numbers_spell hfit
  have hlength : (C.encodeAffine ⟨x, y, 1⟩).length = C.side.width .affine := by
    rw [hdata, Bytes.length_spell, hcount, width_affine]
  have hbelow : ∀ n ∈ C.affineNumbers (C.encodeAffine ⟨x, y, 1⟩), n < q := by
    rw [hnumbers]
    intro n hn
    obtain ⟨a, -, rfl⟩ := List.mem_map.mp hn
    exact a.lt
  refine ⟨hlength, ⟨?_, hbelow⟩, ?_⟩
  · -- the first number is below the modulus, and the modulus is below the flags
    obtain ⟨k, hk⟩ := C.exists_limbCount_eq
    have hfirst : Bytes.toNat ((C.encodeAffine ⟨x, y, 1⟩).take limbWidth) < q := by
      apply hbelow
      have hcount : 2 * C.limbCount = (2 * k + 1) + 1 := by omega
      rw [affineNumbers, hcount, Bytes.numbers_succ]
      exact List.mem_cons_self
    obtain ⟨b, rest, hcons, hwidth⟩ := exists_eq_cons hlength
    rw [hcons] at hfirst ⊢
    have hq : q < sortBit := by decide +kernel
    exact (flags_clear_iff_first_lt hwidth).mpr (hfirst.trans hq)
  · have htake : limbs.take C.limbCount = C.toLimbs x := List.take_left' (L.length_toLimbs x)
    have hdrop : limbs.drop C.limbCount = C.toLimbs y := List.drop_left' (L.length_toLimbs x)
    rw [affinePoint, hnumbers, map_ofNat_val, htake, hdrop, L.ofLimbs_toLimbs, L.ofLimbs_toLimbs]

/-- What the affine decoder reads: the identity where it is allowed, and members by the coordinates that
    are spelled. -/
theorem decodeAffine_eq_ok_iff {data : Bytes} {allowIdentity : Bool} {p : Point F} :
    C.decodeAffine data allowIdentity = .ok p ↔
      (data = C.affineIdentity ∧ p = Point.infinity ∧ allowIdentity = true) ∨
        (data.length = C.side.width .affine ∧ C.SpellsCoordinates data ∧ p = C.affinePoint data ∧
          C.Member p) := by
  constructor
  · intro h
    -- width, identity and coordinates are told apart in the order of the decoder
    by_cases hlength : data.length = C.side.width .affine
    · by_cases hidentity : data = C.affineIdentity
      · rw [hidentity, decodeAffine_affineIdentity] at h
        obtain ⟨rfl, -, hallowed⟩ := L.validate_eq_ok_iff.mp h
        exact .inl ⟨hidentity, rfl, hallowed (Point.isInfinity_iff.mpr rfl)⟩
      · by_cases hspells : C.SpellsCoordinates data
        · rw [decodeAffine_of_spells hlength hspells] at h
          obtain ⟨rfl, hmember, -⟩ := L.validate_eq_ok_iff.mp h
          exact .inr ⟨hlength, hspells, rfl, hmember⟩
        · obtain ⟨failure, hfail, -⟩ :=
            decodeAffine_of_not_spells hlength hidentity hspells allowIdentity
          rw [hfail] at h
          cases h
    · rw [decodeAffine_of_length_ne hlength] at h
      cases h
  · rintro (⟨rfl, rfl, rfl⟩ | ⟨hlength, hspells, rfl, hmember⟩)
    · rw [decodeAffine_affineIdentity]
      exact L.validate_eq_ok_iff.mpr ⟨rfl, L.member_of_infinite rfl, fun _ => rfl⟩
    · rw [decodeAffine_of_spells hlength hspells]
      exact L.validate_eq_ok_iff.mpr ⟨rfl, hmember, fun h => absurd h affinePoint_finite⟩

/-- The affine decoder accepts what is written for members, and reads it as their normal forms. -/
theorem exact_affine : C.Exact .affine := by
  intro data allowIdentity p
  show C.decodeAffine data allowIdentity = .ok p ↔ Except.ok (C.encodeAffine p) = .ok data ∧ _
  rw [Except.ok.injEq, L.decodeAffine_eq_ok_iff]
  constructor
  -- what is accepted is the identity, or coordinates of a member
  · rintro (⟨rfl, rfl, rfl⟩ | ⟨hlength, hspells, rfl, hmember⟩)
    · exact ⟨encodeAffine_of_infinite rfl, Point.normal_infinity, L.member_of_infinite rfl,
        fun _ => rfl⟩
    · exact ⟨L.encodeAffine_affinePoint hlength hspells, Point.normal_of_z_eq_one rfl, hmember,
        fun h => absurd h affinePoint_finite⟩
  · rintro ⟨rfl, hnormal, hmember, hallowed⟩
    by_cases hz : p.z = 0
    · refine .inl ⟨encodeAffine_of_infinite hz, ?_, hallowed (Point.isInfinity_iff.mpr hz)⟩
      exact hnormal.symm.trans (Point.normal_of_infinite hz)
    -- a finite normal form is its affine coordinates over one
    · have hone : p = ⟨p.x / p.z, p.y / p.z, 1⟩ := hnormal.symm.trans (Point.normal_of_finite hz)
      obtain ⟨hlength, hspells, hpoint⟩ := L.spells_encodeAffine (p.x / p.z) (p.y / p.z)
      rw [← hone] at hlength hspells hpoint
      exact .inr ⟨hlength, hspells, hpoint.symm, hmember⟩

/-- What the affine decoder accepts, told from the bytes. -/
theorem exists_decodeAffine_iff {data : Bytes} {allowIdentity : Bool} :
    (∃ p, C.decodeAffine data allowIdentity = .ok p) ↔
      (allowIdentity = true ∧ data = C.affineIdentity) ∨
        (data.length = C.side.width .affine ∧ C.SpellsCoordinates data ∧
          (C.affinePoint data).onCurve C.constant = true ∧
          Point.law.hasOrder groupOrder (C.affinePoint data) = true) := by
  constructor
  · rintro ⟨p, h⟩
    rcases L.decodeAffine_eq_ok_iff.mp h with
      ⟨hdata, -, hallowed⟩ | ⟨hlength, hspells, rfl, hcurve, horder⟩
    · exact .inl ⟨hallowed, hdata⟩
    · exact .inr ⟨hlength, hspells, hcurve, horder⟩
  · rintro (⟨hallowed, hdata⟩ | ⟨hlength, hspells, hcurve, horder⟩)
    · exact ⟨_, L.decodeAffine_eq_ok_iff.mpr (.inl ⟨hdata, rfl, hallowed⟩)⟩
    · exact ⟨_, L.decodeAffine_eq_ok_iff.mpr (.inr ⟨hlength, hspells, rfl, hcurve, horder⟩)⟩

end Laws

/-! ## Refusing -/

/-- An affine encoding is refused by the first check that it fails. -/
theorem category_of_decodeAffine_eq_error {data : Bytes} {allowIdentity : Bool} {failure : Failure}
    (h : C.decodeAffine data allowIdentity = .error failure) :
    ∃ kind, C.rejection data allowIdentity = some kind ∧ failure.category = .error kind := by
  -- the rejection asks what the decoder asks, in the same order
  by_cases hlength : data.length = C.side.width .affine
  · rw [rejection, if_neg (not_not.mpr hlength)]
    by_cases hidentity : data = C.affineIdentity
    · rw [if_neg (fun hne => hne.1 hidentity)]
      subst hidentity
      rw [decodeAffine_affineIdentity, validate, if_pos (Point.isInfinity_iff.mpr rfl)] at h
      cases allowIdentity with
      | false =>
        cases h
        exact ⟨.identityPoint, if_pos ⟨rfl, rfl⟩, rfl⟩
      | true => cases h
    · by_cases hspells : C.SpellsCoordinates data
      · rw [if_neg (fun hne => hne.2 hspells), if_neg (fun heq => hidentity heq.1)]
        rw [decodeAffine_of_spells hlength hspells, validate, if_neg affinePoint_finite] at h
        by_cases hcurve : (C.affinePoint data).onCurve C.constant = false
        · rw [if_pos hcurve] at h
          cases h
          exact ⟨.pointNotOnCurve, if_pos ⟨hidentity, hcurve⟩, rfl⟩
        · rw [if_neg hcurve] at h
          rw [if_neg (fun hoff => hcurve hoff.2)]
          by_cases horder : Point.law.hasOrder groupOrder (C.affinePoint data) = false
          · rw [if_pos horder] at h
            cases h
            exact ⟨.pointNotInSubgroup, if_pos ⟨hidentity, horder⟩, rfl⟩
          · rw [if_neg horder] at h
            cases h
      · rw [if_pos ⟨hidentity, hspells⟩]
        obtain ⟨failure', hfail, hcategory⟩ :=
          decodeAffine_of_not_spells hlength hidentity hspells allowIdentity
        cases hfail.symm.trans h
        exact ⟨_, rfl, hcategory⟩
  · rw [decodeAffine_of_length_ne hlength] at h
    cases h
    exact ⟨.invalidLength, if_pos hlength, rfl⟩

/-! ## The affine forms of the two groups -/

/-- The affine form of a group is canonical, what it accepts can be told from the bytes, and the rest is
    refused by the first check that it fails. -/
structure AffineExact (C : Coding F) (G : Group (Point F)) : Prop where
  canonical : G.Canonical C.Member .affine
  accepts_iff {data : Bytes} {allowIdentity : Bool} :
    (∃ p, G.decode .affine data allowIdentity = .ok p) ↔
      (allowIdentity = true ∧ data = C.affineIdentity) ∨
        (data.length = C.side.width .affine ∧ C.SpellsCoordinates data ∧
          (C.affinePoint data).onCurve C.constant = true ∧
          Point.law.hasOrder groupOrder (C.affinePoint data) = true)
  refuses {data : Bytes} {allowIdentity : Bool} {failure : Failure} :
    G.decode .affine data allowIdentity = .error failure →
      ∃ kind, C.rejection data allowIdentity = some kind ∧ failure.category = .error kind

/-- The affine form is exact, in acceptance and in refusal. -/
theorem Laws.affineExact (L : C.Laws) : C.AffineExact C.group where
  canonical := L.canonical_of_exact L.exact_affine
  accepts_iff := L.exists_decodeAffine_iff
  refuses := category_of_decodeAffine_eq_error

end Coding

/-- Both groups read their affine encodings exactly. -/
theorem affine_exact :
    coding₁.AffineExact bls12381.group₁ ∧ coding₂.AffineExact bls12381.group₂ :=
  ⟨laws₁.affineExact, laws₂.affineExact⟩

/-- Doubled generators, whose triples are not normal, are written and read back; zeros are off the
    curve. -/
theorem affine_exact_doubled_generators :
    (∃ data r, bls12381.group₁.encode .affine generator.double = .ok data ∧
      bls12381.group₁.decode .affine data false = .ok r ∧
      bls12381.group₁.same r generator.double = true) ∧
    (∃ data r, bls12381.group₂.encode .affine generator₂.double = .ok data ∧
      bls12381.group₂.decode .affine data false = .ok r ∧
      bls12381.group₂.same r generator₂.double = true) ∧
    coding₁.rejection (Bytes.zeros 96) true = some .pointNotOnCurve := by
  refine ⟨?_, ?_, ?_⟩
  · obtain ⟨data, r, hdata, hr, hsame, -⟩ := affine_exact.1.canonical.decode_encode
      (reading₁.valid_double member_generator) (fun h => absurd h (by decide +kernel))
    exact ⟨data, r, hdata, hr, hsame⟩
  · obtain ⟨data, r, hdata, hr, hsame, -⟩ := affine_exact.2.canonical.decode_encode
      (reading₂.valid_double member_generator₂) (fun h => absurd h (by decide +kernel))
    exact ⟨data, r, hdata, hr, hsame⟩
  · have hzeros : bls12381.group₁.decode .affine (Bytes.zeros 96) true =
        .error (.offCurve .g1 .affine) := rfl
    obtain ⟨kind, hkind, hcategory⟩ := affine_exact.1.refuses hzeros
    cases hcategory
    exact hkind

end AggSig
