/-
  A backend that obeys the laws.

  The pairing multiplies the element of the second group by the logarithm of the element of the first.
  It is bilinear because the generator generates the first group, and it takes its values in the second
  group, so no value has to be reduced any further.  Points off their curves have no pairing, and hashes
  are those of the suite that runs, as far as they are members.
-/
import AggSig.Proofs.Pairing.Laws

namespace AggSig

/-- An element of `G₂` times the logarithm of an element of `G₁`. -/
noncomputable def logPairing : G₂ →+ G₁ →+ G₂ :=
  AddMonoidHom.mk'
    (fun a => AddMonoidHom.mk' (fun b => log b • a) (by
      intro b c
      have hsum : b + c = (log b + log c) • g₁ := by rw [add_nsmul, log_nsmul, log_nsmul]
      rw [log_nsmul_of_eq hsum, add_nsmul]))
    (by
      intro a a'
      ext1 b
      exact nsmul_add a a' (log b))

theorem member_infinity₂ : coding₂.Member Point.infinity := reading₂.valid_identity

/-- The point itself if it is a member, and the identity otherwise. -/
def memberOrInfinity (p : Point Fq2) : Point Fq2 := if coding₂.Member p then p else Point.infinity

/-- So it is a member in either case. -/
theorem member_memberOrInfinity (p : Point Fq2) : coding₂.Member (memberOrInfinity p) := by
  rw [memberOrInfinity]
  split
  · assumption
  · exact member_infinity₂

/-- The backend that pairs by logarithms. -/
noncomputable def logBackend : Backend (Multiplicative G₂) where
  hash tag data := memberOrInfinity (ToCurve.hash tag data)
  pair Q P :=
    if Q.onCurve b₂ = false then .error (.pairingOffCurve .g2)
    else if P.onCurve b₁ = false then .error (.pairingOffCurve .g1)
    else .ok (.ofAdd (logPairing (reading₂.read Q) (reading₁.read P)))
  finalExponentiation t := t

/-- It obeys the laws. -/
noncomputable def logLaws : logBackend.Laws G₂ where
  member_hash tag data := by
    simp only [logBackend]
    exact member_memberOrInfinity _
  Reduces t a := t.toAdd = a
  reduces_one := rfl
  reduces_mul ht hu := by rw [toAdd_mul, ht, hu]
  finalExponentiation_iff := by
    rintro t a rfl
    exact toAdd_eq_zero.symm
  pairing := logPairing
  exists_pair {h k} hh hk := by
    refine ⟨.ofAdd (logPairing (reading₂.read h) (reading₁.read k)), ?_, rfl⟩
    have hh' : h.onCurve b₂ = true := hh.1
    have hk' : k.onCurve b₁ = true := hk.1
    simp [logBackend, hh', hk']
  nondegenerate {a} h := by
    have hone : logPairing a g₁ = 1 • a := log_nsmul_of_eq (one_nsmul g₁).symm a
    rw [← one_nsmul a, ← hone]
    exact h g₁

theorem read_generator₂_ne_zero : reading₂.read generator₂ ≠ 0 := by
  intro h
  have hinfinite : generator₂.isInfinity = true :=
    (reading₂.isIdentity_iff member_generator₂).mpr h
  exact absurd hinfinite (by decide)

end AggSig
