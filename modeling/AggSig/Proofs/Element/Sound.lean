/-
  Points that can be compared.

  Cross multiplication tells points apart, but for the triple of zeros, which is the same as every
  other (`Point.same_degenerate`).  Doubling a point at infinity twice arrives there, so the operations
  do not keep away from it on their own.

  A member is *sound* if it is not the triple of zeros, and the operations are only ever applied so that
  points stay sound: a finite member doubled is finite, because its order is odd (`double_spec`); `add`
  doubles nothing but finite points (`sound_add`); and what `multiply` doubles are the multiples of a
  finite point (`sound_multiply`).

  Sound points are compared by their normal forms, and so by their encodings (`same_iff_encode_eq`).
-/
import AggSig.Proofs.Coding.Canonical

namespace AggSig

/-! ## Sums -/

namespace GroupLaw

variable {P : Type} {G : GroupLaw P} {Good : P → Prop}

/-- What the addition keeps, sums keep. -/
theorem good_sum (hadd : ∀ p r, Good p → Good r → Good (G.add p r)) {ps : List P} {start : P}
    (hps : ∀ p ∈ ps, Good p) (hstart : Good start) : Good (G.sum ps start) := by
  induction ps generalizing start with
  | nil => exact hstart
  | cons p ps ih =>
    obtain ⟨hp, hrest⟩ := List.forall_mem_cons.mp hps
    exact ih hrest (hadd start p hstart hp)

/-- What the addition keeps, sums over shards keep. -/
theorem good_shardSum (hadd : ∀ p r, Good p → Good r → Good (G.add p r)) {w : Shard.Workers}
    {ps : List P} {start total : P} (hps : ∀ p ∈ ps, Good p) (hstart : Good start)
    (h : Shard.sum G w ps start = .ok total) : Good total := by
  rw [Shard.sum, Shard.shards] at h
  cases hcount : w.count ps.length with
  | error failure =>
    rw [hcount] at h
    cases h
  | ok n =>
    rw [hcount] at h
    cases h
    -- the sum of the sums of the pieces
    refine good_sum hadd (fun r hr => ?_) hstart
    obtain ⟨piece, hpiece, rfl⟩ := List.mem_map.mp hr
    refine good_sum hadd (fun p hp => hps p ?_) hstart
    exact Shard.mem_of_mem_chunks (Shard.Workers.one_le_of_count hcount) hpiece hp

end GroupLaw

/-! ## Sound points -/

namespace Coding

variable {F : Type} [Field F] [DecidableEq F]

/-- A member that is not the triple of zeros. -/
structure Sound (C : Coding F) (p : Point F) : Prop where
  member : C.Member p
  ne_degenerate : p ≠ Point.degenerate

variable {C : Coding F}

theorem sound_of_finite {p : Point F} (hp : C.Member p) (hz : p.z ≠ 0) : C.Sound p :=
  ⟨hp, fun h => hz (congrArg Point.z h)⟩

theorem sound_of_normal_eq {p : Point F} (hp : C.Member p) (h : p.normal = p) : C.Sound p :=
  ⟨hp, Point.ne_degenerate_of_normal_eq h⟩

namespace Laws

variable (L : C.Laws)

include L

/-- Members are the valid representations of elements of order `groupOrder`. -/
theorem member_iff_valid {p : Point F} :
    C.Member p ↔ (L.curve.reading.ofOrder groupOrder).Valid p := by
  rw [Member, L.constant_eq]
  rfl

theorem member_add {p r : Point F} (hp : C.Member p) (hr : C.Member r) : C.Member (p.add r) := by
  rw [L.member_iff_valid] at hp hr ⊢
  exact (L.curve.reading.ofOrder groupOrder).valid_add hp hr

theorem sound_infinity : C.Sound Point.infinity :=
  sound_of_normal_eq (L.member_of_infinite rfl) Point.normal_infinity

/-- A finite member doubled is finite: its ordinate is not zero. -/
theorem double_spec {p : Point F} (hp : C.Member p) (hz : p.z ≠ 0) :
    C.Member p.double ∧ p.double.z ≠ 0 := by
  constructor
  · rw [L.member_iff_valid] at hp ⊢
    exact (L.curve.reading.ofOrder groupOrder).valid_double hp
  · have hs : p.y * p.z ≠ 0 := mul_ne_zero (L.coordinates_ne_zero hp hz).2 hz
    have htwice : ∀ {a : F}, a ≠ 0 → Point.twice a ≠ 0 := by
      intro a ha
      rw [Point.twice, ← two_mul]
      exact mul_ne_zero L.curve.two_ne_zero ha
    exact htwice (htwice (htwice (mul_ne_zero hs (mul_ne_zero hs hs))))

/-- Sums of sound triples are sound. -/
theorem sound_add {p r : Point F} (hp : C.Sound p) (hr : C.Sound r) : C.Sound (p.add r) := by
  have hmember := L.member_add hp.member hr.member
  by_cases hinfinite : p.z = 0 ∨ r.z = 0
  · rw [Point.add, if_pos hinfinite]
    split
    · exact hp
    · exact hr
  · obtain ⟨hpz, hrz⟩ := not_or.mp hinfinite
    by_cases hx : r.x * p.z = p.x * r.z
    · rw [Point.add, if_neg hinfinite]
      dsimp only
      rw [if_pos hx]
      split
      · obtain ⟨hdouble, hz⟩ := L.double_spec hp.member hpz
        exact sound_of_finite hdouble hz
      · exact L.sound_infinity
    · -- the chord: its `z` is a product of what is not zero
      refine sound_of_finite hmember ?_
      rw [Point.add, if_neg hinfinite]
      dsimp only
      rw [if_neg hx]
      have hv : r.x * p.z - p.x * r.z ≠ 0 := sub_ne_zero.mpr hx
      exact mul_ne_zero (mul_ne_zero hv (mul_ne_zero hv hv)) (mul_ne_zero hpz hrz)

/-- Multiples of a finite member are sound. -/
theorem sound_multiply {p : Point F} (hp : C.Member p) (hz : p.z ≠ 0) (n : Nat) :
    C.Sound (Point.law.multiply p n) := by
  refine Point.law.multiply_induction
    (Q := fun p _ r => C.Member p → p.z ≠ 0 → C.Sound r) ?_ ?_ ?_ ?_ p n hp hz
  · intro _ _ _
    exact L.sound_infinity
  · intro p hp hz
    exact sound_of_finite hp hz
  · intro p n r ih hp hz
    obtain ⟨hdouble, hdoubleZ⟩ := L.double_spec hp hz
    exact ih hdouble hdoubleZ
  · intro p n r ih hp hz
    obtain ⟨hdouble, hdoubleZ⟩ := L.double_spec hp hz
    exact L.sound_add (ih hdouble hdoubleZ) (sound_of_finite hp hz)

/-! ## Comparing -/

/-- Sound points are the same exactly if they are written the same way. -/
theorem same_iff_encode_eq {form : Form} (h : C.Exact form) {p r : Point F} (hp : C.Sound p)
    (hr : C.Sound r) :
    p.same r = true ↔ C.group.encode form p = C.group.encode form r := by
  obtain ⟨data, hdata, hnormal⟩ := L.exists_encode hp.member form
  obtain ⟨data', hdata', hnormal'⟩ := L.exists_encode hr.member form
  rw [Point.same_iff_normal_eq hp.ne_degenerate hr.ne_degenerate]
  constructor
  · intro heq
    rw [hdata, hdata', ← hnormal, ← hnormal', heq]
  · intro heq
    obtain rfl : data = data' := Except.ok.inj (hdata.symm.trans (heq.trans hdata'))
    -- both normal forms are what the one encoding is read as
    have hdecode := (h data true p.normal).mpr
      ⟨hnormal, p.normal_normal, L.member_normal hp.member, fun _ => rfl⟩
    have hdecode' := (h data true r.normal).mpr
      ⟨hnormal', r.normal_normal, L.member_normal hr.member, fun _ => rfl⟩
    exact Except.ok.inj (hdecode.symm.trans hdecode')

/-- A sound point is infinite exactly if it is the same as the identity. -/
theorem isInfinity_iff_same {p : Point F} (hp : C.Sound p) :
    p.isInfinity = true ↔ p.same Point.infinity = true := by
  rw [Point.same_iff_normal_eq hp.ne_degenerate L.sound_infinity.ne_degenerate,
    Point.normal_infinity, Point.isInfinity_iff]
  constructor
  · exact Point.normal_of_infinite
  · intro h
    by_contra hz
    rw [Point.normal_of_finite hz] at h
    exact one_ne_zero (congrArg Point.z h)

end Laws

end Coding

end AggSig
