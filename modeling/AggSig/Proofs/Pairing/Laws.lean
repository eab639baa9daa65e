/-
  What the pairing is relied on for, and what a check of pairings then decides.

  The groups of points are the two curves, whose laws are proved.  A `Backend` is the rest of a suite:
  the hash to the second curve, the pairing before its final exponentiation, and that exponentiation.
  `Backend.Laws` says what is expected of it: hashes are members of the second group, and after the
  final exponentiation a product of pairings of members is the product of the values of a bilinear map
  that is not degenerate in its first argument.

  `pairingCheck_eq` is what these laws come to for the checks, all of which pair the generator's
  reflection last: such a check never fails, and it holds exactly if the last point is the sum of the
  hashed points, each multiplied by the logarithm of its key.
-/
import AggSig.Proofs.Curve.Subgroup

namespace AggSig

/-- The part of a suite over the two curves that is not the group law. -/
structure Backend (T : Type) where
  hash : Tag → Bytes → Point Fq2
  /-- The pairing before its final exponentiation. -/
  pair : Point Fq2 → Point Fq → Except Failure T
  finalExponentiation : T → T

/-- The suite over the two curves with a given backend. -/
def Backend.suite {T : Type} (B : Backend T) : Suite (Point Fq) (Point Fq2) T where
  group₁ := bls12381.group₁
  group₂ := bls12381.group₂
  generator := bls12381.generator
  generatorNeg := bls12381.generatorNeg
  hash := B.hash
  pair := B.pair
  finalExponentiation := B.finalExponentiation

theorem Backend.member_generatorNeg {T : Type} (B : Backend T) :
    coding₁.Member B.suite.generatorNeg ∧ reading₁.read B.suite.generatorNeg = -g₁ :=
  neg_spec₁ member_generator

/-- The suite that runs is the one with the backend that runs. -/
theorem bls12381_eq_suite :
    bls12381 = Backend.suite ⟨ToCurve.hash, Pairing.pair, Pairing.finalExponentiation⟩ := by
  rw [Backend.suite, bls12381]

namespace Backend

variable {T : Type} [One T] [Mul T]

/-- What a backend is expected to obey, with `E` the group that the pairing takes its values in. -/
structure Laws (B : Backend T) (E : Type) [AddCommGroup E] where
  member_hash (tag : Tag) (data : Bytes) : coding₂.Member (B.hash tag data)
  /-- Which value the final exponentiation makes of a product of pairings. -/
  Reduces : T → E → Prop
  reduces_one : Reduces 1 0
  reduces_mul {t u : T} {a b : E} : Reduces t a → Reduces u b → Reduces (t * u) (a + b)
  finalExponentiation_iff {t : T} {a : E} :
    Reduces t a → (B.finalExponentiation t = 1 ↔ a = 0)
  pairing : G₂ →+ G₁ →+ E
  exists_pair {h : Point Fq2} {k : Point Fq} : coding₂.Member h → coding₁.Member k →
    ∃ t, B.pair h k = .ok t ∧ Reduces t (pairing (reading₂.read h) (reading₁.read k))
  nondegenerate {a : G₂} : (∀ b, pairing a b = 0) → a = 0

namespace Laws

variable {B : Backend T} {E : Type} [AddCommGroup E] (L : B.Laws E)

/-! ## The pairing with the generator decides everything -/

/-- A pairing with any element is one with the generator. -/
theorem pairing_eq (a : G₂) (b : G₁) : L.pairing a b = L.pairing (log b • a) g₁ := by
  calc L.pairing a b = L.pairing a (log b • g₁) := by rw [log_nsmul]
    _ = log b • L.pairing a g₁ := map_nsmul _ _ _
    _ = L.pairing (log b • a) g₁ := by rw [map_nsmul, AddMonoidHom.nsmul_apply]

/-- Paired with the first generator, only zero gives zero. -/
theorem pairing_g₁_eq_zero_iff {a : G₂} : L.pairing a g₁ = 0 ↔ a = 0 := by
  constructor
  · intro h
    apply L.nondegenerate
    intro b
    rw [← log_nsmul b, map_nsmul, h, nsmul_zero]
  · rintro rfl
    rw [map_zero, AddMonoidHom.zero_apply]

/-- A sum of pairings is one pairing with the generator. -/
theorem sum_pairing_eq (pairs : List (Point Fq2 × Point Fq)) :
    (pairs.map fun p => L.pairing (reading₂.read p.1) (reading₁.read p.2)).sum =
      L.pairing (pairs.map fun p => log (reading₁.read p.2) • reading₂.read p.1).sum g₁ := by
  have hflip : ∀ a, L.pairing a g₁ = L.pairing.flip g₁ a := fun _ => rfl
  rw [hflip, map_list_sum, List.map_map]
  congr 1
  apply List.map_congr_left
  intro p _
  exact L.pairing_eq _ _

/-! ## Products of pairings -/

/-- One more pairing after a product that is known. -/
theorem foldlM_spec {pairs : List (Point Fq2 × Point Fq)} {t : T} {a : E}
    (hpairs : ∀ p ∈ pairs, coding₂.Member p.1 ∧ coding₁.Member p.2) (ht : L.Reduces t a) :
    ∃ u, pairs.foldlM (fun product (h, k) => (product * ·) <$> B.pair h k) t = .ok u ∧
      L.Reduces u
        (a + (pairs.map fun p => L.pairing (reading₂.read p.1) (reading₁.read p.2)).sum) := by
  -- on the pairs; the product so far changes with each of them
  induction pairs generalizing t a with
  | nil => exact ⟨t, rfl, by simpa using ht⟩
  | cons p rest ih =>
    obtain ⟨hh, hk⟩ := hpairs p List.mem_cons_self
    obtain ⟨v, hpair, hv⟩ := L.exists_pair hh hk
    obtain ⟨u, hfold, hu⟩ :=
      ih (fun r hr => hpairs r (List.mem_cons_of_mem p hr)) (L.reduces_mul ht hv)
    refine ⟨u, ?_, ?_⟩
    · rw [List.foldlM_cons]
      show ((t * ·) <$> B.pair p.1 p.2 >>= fun product => _) = _
      rw [hpair]
      exact hfold
    · rw [List.map_cons, List.sum_cons, ← add_assoc]
      exact hu

/-- A product of pairings is there for members of the subgroups, and its logarithm is the sum of theirs.
    -/
theorem pairingProduct_spec {pairs : List (Point Fq2 × Point Fq)}
    (hpairs : ∀ p ∈ pairs, coding₂.Member p.1 ∧ coding₁.Member p.2) :
    ∃ u, B.suite.pairingProduct pairs = .ok u ∧
      L.Reduces u (pairs.map fun p => L.pairing (reading₂.read p.1) (reading₁.read p.2)).sum := by
  obtain ⟨u, hfold, hu⟩ := L.foldlM_spec hpairs L.reduces_one
  exact ⟨u, hfold, by simpa using hu⟩

/-! ## Checks -/

variable [DecidableEq T]

include L in
/-- A check of pairings whose last pair has the reflected generator: the last point has to be the sum
    of the others, each multiplied by the logarithm of its key. -/
theorem pairingCheck_eq {pairs : List (Point Fq2 × Point Fq)} {s : Point Fq2}
    (hpairs : ∀ p ∈ pairs, coding₂.Member p.1 ∧ coding₁.Member p.2) (hs : coding₂.Member s) :
    B.suite.pairingCheck (pairs ++ [(s, B.suite.generatorNeg)]) =
      .ok (decide (reading₂.read s =
        (pairs.map fun p => log (reading₁.read p.2) • reading₂.read p.1).sum)) := by
  obtain ⟨hneg, hread⟩ := B.member_generatorNeg
  have hall : ∀ p ∈ pairs ++ [(s, B.suite.generatorNeg)],
      coding₂.Member p.1 ∧ coding₁.Member p.2 := by
    intro p hp
    rcases List.mem_append.mp hp with hp | hp
    · exact hpairs p hp
    · obtain rfl := List.mem_singleton.mp hp
      exact ⟨hs, hneg⟩
  obtain ⟨t, hproduct, ht⟩ := L.pairingProduct_spec hall
  have hsum : ((pairs ++ [(s, B.suite.generatorNeg)]).map fun p =>
        L.pairing (reading₂.read p.1) (reading₁.read p.2)).sum =
      L.pairing ((pairs.map fun p => log (reading₁.read p.2) • reading₂.read p.1).sum -
        reading₂.read s) g₁ := by
    rw [List.map_append, List.sum_append, List.map_singleton, List.sum_singleton,
      L.sum_pairing_eq, hread, map_neg, ← sub_eq_add_neg, map_sub, AddMonoidHom.sub_apply]
  rw [hsum] at ht
  -- the product reduces to the pairing of a difference with the generator
  have hanswer : B.suite.isOne t = decide (reading₂.read s =
      (pairs.map fun p => log (reading₁.read p.2) • reading₂.read p.1).sum) := by
    rw [Suite.isOne, decide_eq_decide]
    refine (L.finalExponentiation_iff ht).trans ?_
    rw [L.pairing_g₁_eq_zero_iff, sub_eq_zero, eq_comm]
  rw [Suite.pairingCheck, hproduct, ← hanswer]
  rfl

end Laws

end Backend

end AggSig
