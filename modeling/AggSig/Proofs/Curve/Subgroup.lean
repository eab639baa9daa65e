/-
  The subgroups of prime order on the two curves.

  `G₁` and `G₂` are the points that the group order kills.  A triple is a member of one of them if it
  passes the two tests that the decoders make, for the curve and for the subgroup; `reading₁` and
  `reading₂` give the element that a member stands for.

  The generator generates `G₁` (`exists_nsmul_generator`).  That is a matter of counting: an abscissa
  has at most two ordinates, so the curve has fewer points than the square of the group order, while a
  vector space of dimension two over the residues modulo that order would have as many.
-/
import AggSig.Proofs.Curve.Chord
import AggSig.Proofs.Field.Root
import Mathlib.Algebra.Module.ZMod
import Mathlib.FieldTheory.Finiteness
import Mathlib.LinearAlgebra.FiniteDimensional.Basic

namespace AggSig

instance fact_prime_groupOrder : Fact groupOrder.Prime := ⟨prime_groupOrder⟩

/-! ## Members -/

/-- The first curve. -/
def curve₁ : ShortCurve Fq where
  b := b₁
  b_ne_zero := by decide
  two_ne_zero := by decide
  three_ne_zero := by decide

/-- The second curve. -/
def curve₂ : ShortCurve Fq2 where
  b := b₂
  b_ne_zero := by decide
  two_ne_zero := by decide
  three_ne_zero := by decide

/-- The subgroup of the first curve. -/
abbrev G₁ : Type := AddSubgroup.torsionBy curve₁.weierstrass.Point (groupOrder : ℤ)

/-- The subgroup of the second curve. -/
abbrev G₂ : Type := AddSubgroup.torsionBy curve₂.weierstrass.Point (groupOrder : ℤ)

/-- Whether a triple is on the curve of a coding and in the subgroup of the group order: what a decoder
    of the coding makes sure of. -/
def Coding.Member {F : Type} [Zero F] [One F] [Add F] [Sub F] [Mul F] [Neg F] [Div F] [DecidableEq F]
    (C : Coding F) (p : Point F) : Prop :=
  p.onCurve C.constant = true ∧ Point.law.hasOrder groupOrder p = true

instance {F : Type} [Zero F] [One F] [Add F] [Sub F] [Mul F] [Neg F] [Div F] [DecidableEq F]
    (C : Coding F) (p : Point F) : Decidable (C.Member p) :=
  inferInstanceAs (Decidable (_ ∧ _))

/-- Members of the first group, read as elements of the subgroup. -/
noncomputable def reading₁ : GroupLaw.Reading coding₁.group.toGroupLaw G₁ :=
  curve₁.reading.ofOrder groupOrder

/-- Members of the second group, read as elements of the subgroup. -/
noncomputable def reading₂ : GroupLaw.Reading coding₂.group.toGroupLaw G₂ :=
  curve₂.reading.ofOrder groupOrder

/-! ## The generators -/

theorem member_generator : coding₁.Member generator :=
  ⟨by decide +kernel, by decide +kernel⟩

/-- A member of the second group other than the identity: its customary generator. -/
def generator₂ : Point Fq2 where
  x := Fq2.ofNats
    0x024aa2b2f08f0a91260805272dc51051c6e47ad4fa403b02b4510b647ae3d1770bac0326a805bbefd48056c8c121bdb8
    0x13e02b6052719f607dacd3a088274f65596bd0d09920b61ab5da61bbdc7f5049334cf11213945d57e5ac7d055d042b7e
  y := Fq2.ofNats
    0x0ce5d527727d6e118cc9cdc6da2e351aadfd9baa8cbdd3a76d429a695160d12c923ac9cc3baca289e193548608b82801
    0x0606c4a02ea734cc32acd2b02bc28b99cb3e287e85a763af267492ab572e99ab3f370d275cec1da1aaa9075ff05f79be
  z := 1

theorem member_generator₂ : coding₂.Member generator₂ :=
  ⟨by decide +kernel, by decide +kernel⟩

/-- The element that the generator stands for. -/
noncomputable def g₁ : G₁ := reading₁.read generator

theorem g₁_ne_zero : g₁ ≠ 0 := by
  intro h
  have hinfinite : generator.isInfinity = true := (reading₁.isIdentity_iff member_generator).mpr h
  exact absurd hinfinite (by decide)

/-- The reflection of a member is a member, and stands for the inverse. -/
theorem neg_spec₁ {p : Point Fq} (hp : coding₁.Member p) :
    coding₁.Member p.neg ∧ reading₁.read p.neg = -reading₁.read p := by
  have hkilled : groupOrder • curve₁.affine p = 0 :=
    GroupLaw.Reading.HasOrder.nsmul_read (R := curve₁.reading) hp
  obtain ⟨hcurve, hneg⟩ := curve₁.neg_spec hp.1
  have hkilled' : groupOrder • curve₁.affine p.neg = 0 := by
    rw [hneg, smul_neg, hkilled, neg_zero]
  refine ⟨curve₁.reading.hasOrder_of_read hcurve hkilled', Subtype.ext ?_⟩
  rw [AddSubgroup.coe_neg]
  exact (curve₁.reading.coe_readOrder hkilled').trans
    (hneg.trans (congrArg Neg.neg (curve₁.reading.coe_readOrder hkilled).symm))

/-! ## The number of points -/

/-- A point of the first curve is known by its abscissa and by the half that its ordinate is in. -/
def pointCode : curve₁.weierstrass.Point → Option (Fq × Bool)
  | .zero => none
  | .some x y _ => some (x, y.isUpperHalf)

/-- No two points have one code. -/
theorem pointCode_injective : Function.Injective pointCode := by
  rintro (_ | ⟨x, y, h⟩) (_ | ⟨x', y', h'⟩) hcode
  · rfl
  · exact absurd hcode (by simp [pointCode])
  · exact absurd hcode (by simp [pointCode])
  · obtain ⟨rfl, hhalf⟩ : x = x' ∧ y.isUpperHalf = y'.isUpperHalf := by
      simpa [pointCode] using hcode
    have hy : y = y' := by
      by_contra hne
      -- different ordinates are opposite, so only one of them is in the upper half
      have heq := curve₁.eq_negY (curve₁.equation_iff.mp h.1) (curve₁.equation_iff.mp h'.1) hne
      obtain rfl : y = -y' := heq.trans (curve₁.negY_eq x y')
      have hzero : y' ≠ 0 := by
        rintro rfl
        exact hne neg_zero
      rw [Fq.isUpperHalf_neg hzero] at hhalf
      exact absurd hhalf (by simp)
    subst hy
    rfl

instance : Finite curve₁.weierstrass.Point := Finite.of_injective pointCode pointCode_injective

/-- There are at most two points on each abscissa, and infinity. -/
theorem card_points_le : Nat.card curve₁.weierstrass.Point ≤ 2 * q + 1 := by
  refine (Nat.card_le_card_of_injective pointCode pointCode_injective).trans ?_
  rw [Nat.card_eq_fintype_card, Fintype.card_option, Fintype.card_prod, Fq.card_eq,
    Fintype.card_bool]
  omega

/-- The elements of `G₁` are the multiples of the generator. -/
theorem exists_nsmul_generator (a : G₁) : ∃ n : Nat, n • g₁ = a := by
  let _ : Module (ZMod groupOrder) G₁ := AddSubgroup.torsionBy.zmodModule
  have hcard : Nat.card G₁ < groupOrder ^ 2 := by
    calc Nat.card G₁ ≤ Nat.card curve₁.weierstrass.Point :=
          Nat.card_le_card_of_injective _ Subtype.val_injective
      _ ≤ 2 * q + 1 := card_points_le
      _ < groupOrder ^ 2 := by decide
  -- as a vector space over the residues modulo the order, `G₁` is not zero and not a plane
  have hpow : Nat.card G₁ = groupOrder ^ Module.finrank (ZMod groupOrder) G₁ := by
    rw [Module.natCard_eq_pow_finrank (K := ZMod groupOrder), Nat.card_zmod]
  have hrank : Module.finrank (ZMod groupOrder) G₁ = 1 := by
    have hle : Module.finrank (ZMod groupOrder) G₁ < 2 := by
      rw [hpow] at hcard
      exact (Nat.pow_lt_pow_iff_right prime_groupOrder.one_lt).mp hcard
    have hpos : 0 < Module.finrank (ZMod groupOrder) G₁ :=
      Module.finrank_pos_iff_exists_ne_zero.mpr ⟨g₁, g₁_ne_zero⟩
    omega
  obtain ⟨c, hc⟩ := exists_smul_eq_of_finrank_eq_one hrank g₁_ne_zero a
  refine ⟨c.val, ?_⟩
  rw [← hc, ← Nat.cast_smul_eq_nsmul (ZMod groupOrder), ZMod.natCast_zmod_val]

/-! ## Logarithms -/

/-- A number of which an element of `G₁` is the multiple of the generator. -/
noncomputable def log (b : G₁) : Nat := (exists_nsmul_generator b).choose

@[simp] theorem log_nsmul (b : G₁) : log b • g₁ = b := (exists_nsmul_generator b).choose_spec

/-- Two numbers give the same multiples of an element other than zero exactly where they agree modulo
    the group order. -/
theorem nsmul_eq_nsmul_iff {A : Type} [AddCommGroup A]
    {a : AddSubgroup.torsionBy A (groupOrder : ℤ)} (ha : a ≠ 0) {m n : Nat} :
    m • a = n • a ↔ m ≡ n [MOD groupOrder] := by
  rw [nsmul_eq_nsmul_iff_modEq, addOrderOf_eq_prime (AddSubgroup.torsionBy.nsmul a) ha]

/-- Of an element of prime order, only the multiples by a multiple of the order are zero. -/
theorem nsmul_eq_zero_iff {A : Type} [AddCommGroup A]
    {a : AddSubgroup.torsionBy A (groupOrder : ℤ)} (ha : a ≠ 0) {n : Nat} :
    n • a = 0 ↔ n % groupOrder = 0 := by
  rw [← zero_nsmul a, nsmul_eq_nsmul_iff ha, Nat.ModEq, Nat.zero_mod]

/-- Numbers that agree modulo the group order give the same multiples. -/
theorem nsmul_congr {A : Type} [AddCommGroup A] (a : AddSubgroup.torsionBy A (groupOrder : ℤ))
    {m n : Nat} (h : m ≡ n [MOD groupOrder]) : m • a = n • a := by
  by_cases ha : a = 0
  · rw [ha, nsmul_zero, nsmul_zero]
  · exact (nsmul_eq_nsmul_iff ha).mpr h

/-- Every number of which an element is the multiple of the generator acts like its logarithm. -/
theorem log_nsmul_of_eq {b : G₁} {n : Nat} (h : b = n • g₁) (a : G₂) : log b • a = n • a := by
  have heq : log b • g₁ = n • g₁ := (log_nsmul b).trans h
  exact nsmul_congr a ((nsmul_eq_nsmul_iff g₁_ne_zero).mp heq)

/-- The logarithm of a multiple acts like the multiple of the logarithm. -/
theorem log_read_multiply {p : Point Fq} (hp : coding₁.Member p) (n : Nat) (a : G₂) :
    log (reading₁.read (coding₁.group.multiply p n)) • a = n • log (reading₁.read p) • a := by
  have hread : reading₁.read (coding₁.group.multiply p n) = (log (reading₁.read p) * n) • g₁ := by
    rw [mul_nsmul, log_nsmul]
    exact reading₁.read_multiply hp n
  rw [log_nsmul_of_eq hread, mul_nsmul]

end AggSig
