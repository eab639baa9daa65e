/-
  Points read as elements of a group.

  Several representations stand for one element, and the operations on representations are right if
  they can be read: a `Reading` gives the element that each valid representation stands for, and says
  that the operations keep validity and compute the group's.  From that alone follows what multiples,
  sums, sums in shards and the test for an order compute (`read_multiply`, `read_sum`,
  `shardSum_spec`, `hasOrder_iff`).

  `Reading.ofOrder` narrows a reading down to the representations that pass the test for an order, as
  elements of the subgroup of that order.

  Multiples are found by doubling and adding, and what holds of them is proved along the way
  (`multiply_induction`).
-/
import AggSig.Proofs.Field.Power
import AggSig.Proofs.Shard
import Mathlib.Algebra.BigOperators.Group.List.Basic
import Mathlib.Algebra.Module.Torsion.Basic

namespace AggSig.GroupLaw

variable {P : Type}

/-! ## Multiples, digit by digit -/

/-- A multiple by two or more: half the scalar is applied to the doubled point, and an odd scalar adds
    the point once more. -/
theorem multiply_of_two_le (G : GroupLaw P) (p : P) {n : Nat} (hn : 2 ≤ n) :
    G.multiply p n =
      if n % 2 = 1 then G.add (G.multiply (G.double p) (n / 2)) p
      else G.multiply (G.double p) (n / 2) := by
  have hhalf : n / 2 ≠ 0 := by omega
  simp only [multiply, bits_of_pos (show n ≠ 0 by omega), bits_of_pos hhalf, multiplyBits,
    beq_iff_eq]

/-- What holds of no point and of one, and goes over from multiples of the doubled point to twice as many
    of the point and to one more, holds of all multiples. -/
theorem multiply_induction (G : GroupLaw P) {Q : P → Nat → P → Prop}
    (hzero : ∀ p, Q p 0 G.identity) (hone : ∀ p, Q p 1 p)
    (heven : ∀ p n r, Q (G.double p) n r → Q p (2 * n) r)
    (hodd : ∀ p n r, Q (G.double p) n r → Q p (2 * n + 1) (G.add r p)) (p : P) (n : Nat) :
    Q p n (G.multiply p n) := by
  -- on the scalar, which is halved; the point is doubled, so it is not fixed
  induction n using Nat.strong_induction_on generalizing p with
  | _ n ih =>
    rcases Nat.lt_or_ge n 2 with hsmall | hn
    · obtain rfl | rfl : n = 0 ∨ n = 1 := by omega
      · exact hzero p
      · exact hone p
    · have hhalf := ih (n / 2) (by omega) (G.double p)
      rw [multiply_of_two_le G p hn]
      by_cases h : n % 2 = 1
      · have hstep := hodd p (n / 2) _ hhalf
        rw [if_pos h]
        rwa [show 2 * (n / 2) + 1 = n by omega] at hstep
      · have hstep := heven p (n / 2) _ hhalf
        rw [if_neg h]
        rwa [show 2 * (n / 2) = n by omega] at hstep

/-! ## Readings -/

/-- Which representations are valid, the element that each of them stands for, and that the
    operations compute with those elements. -/
structure Reading (G : GroupLaw P) (A : Type) [AddCommGroup A] where
  Valid : P → Prop
  read : P → A
  valid_identity : Valid G.identity
  read_identity : read G.identity = 0
  valid_double {p : P} : Valid p → Valid (G.double p)
  read_double {p : P} : Valid p → read (G.double p) = read p + read p
  valid_add {p r : P} : Valid p → Valid r → Valid (G.add p r)
  read_add {p r : P} : Valid p → Valid r → read (G.add p r) = read p + read r
  isIdentity_iff {p : P} : Valid p → (G.isIdentity p = true ↔ read p = 0)

namespace Reading

variable {G : GroupLaw P} {A : Type} [AddCommGroup A] (R : Reading G A)

/-- A multiple of a valid point is valid, and is read as the multiple of what the point is read as. -/
theorem multiply_spec {p : P} (hp : R.Valid p) (n : Nat) :
    R.Valid (G.multiply p n) ∧ R.read (G.multiply p n) = n • R.read p := by
  have hdouble : ∀ p n, R.Valid p → n • R.read (G.double p) = (2 * n) • R.read p := by
    intro p n hp
    rw [R.read_double hp, ← two_nsmul, ← mul_nsmul]
  -- along the bits of the number, with the triple doubled at each of them
  refine G.multiply_induction
    (Q := fun p n r => R.Valid p → R.Valid r ∧ R.read r = n • R.read p) ?_ ?_ ?_ ?_ p n hp
  · intro p _
    exact ⟨R.valid_identity, R.read_identity.trans (zero_nsmul _).symm⟩
  · intro p hp
    exact ⟨hp, (one_nsmul _).symm⟩
  · intro p n r ih hp
    obtain ⟨hvalid, hread⟩ := ih (R.valid_double hp)
    exact ⟨hvalid, hread.trans (hdouble p n hp)⟩
  · intro p n r ih hp
    obtain ⟨hvalid, hread⟩ := ih (R.valid_double hp)
    refine ⟨R.valid_add hvalid hp, ?_⟩
    rw [R.read_add hvalid hp, hread, hdouble p n hp, succ_nsmul]

theorem valid_multiply {p : P} (hp : R.Valid p) (n : Nat) : R.Valid (G.multiply p n) :=
  (R.multiply_spec hp n).1

theorem read_multiply {p : P} (hp : R.Valid p) (n : Nat) :
    R.read (G.multiply p n) = n • R.read p :=
  (R.multiply_spec hp n).2

/-- A point has an order if the order kills what the point is read as. -/
theorem hasOrder_iff {p : P} (hp : R.Valid p) (order : Nat) :
    G.hasOrder order p = true ↔ order • R.read p = 0 := by
  rw [hasOrder, R.isIdentity_iff (R.valid_multiply hp order), R.read_multiply hp]

/-- Both points are valid and stand for one element. -/
structure Coincide (p r : P) : Prop where
  left : R.Valid p
  right : R.Valid r
  read_eq : R.read p = R.read r

/-! ## Sums -/

/-- A sum of valid points is valid, and is read as the sum of what the points are read as. -/
theorem sum_spec {ps : List P} {start : P} (hps : ∀ p ∈ ps, R.Valid p) (hstart : R.Valid start) :
    R.Valid (G.sum ps start) ∧ R.read (G.sum ps start) = R.read start + (ps.map R.read).sum := by
  induction ps generalizing start with
  | nil => exact ⟨hstart, (add_zero _).symm⟩
  | cons p ps ih =>
    have hp : R.Valid p := hps p List.mem_cons_self
    have hrest : ∀ r ∈ ps, R.Valid r := fun r hr => hps r (List.mem_cons_of_mem p hr)
    obtain ⟨hvalid, hread⟩ := ih hrest (R.valid_add hstart hp)
    refine ⟨hvalid, ?_⟩
    rw [sum_cons, hread, R.read_add hstart hp, List.map_cons, List.sum_cons, add_assoc]

theorem valid_sum {ps : List P} {start : P} (hps : ∀ p ∈ ps, R.Valid p) (hstart : R.Valid start) :
    R.Valid (G.sum ps start) :=
  (R.sum_spec hps hstart).1

theorem read_sum {ps : List P} {start : P} (hps : ∀ p ∈ ps, R.Valid p) (hstart : R.Valid start) :
    R.read (G.sum ps start) = R.read start + (ps.map R.read).sum :=
  (R.sum_spec hps hstart).2

/-- A sum of multiples is read as the sum of the multiples. -/
theorem sum_multiply_spec {items : List (P × Nat)} (hitems : ∀ i ∈ items, R.Valid i.1) :
    R.Valid (G.sum (items.map fun i => G.multiply i.1 i.2) G.identity) ∧
      R.read (G.sum (items.map fun i => G.multiply i.1 i.2) G.identity) =
        (items.map fun i => i.2 • R.read i.1).sum := by
  have hmultiples : ∀ p ∈ items.map fun i => G.multiply i.1 i.2, R.Valid p := by
    intro p hp
    obtain ⟨i, hi, rfl⟩ := List.mem_map.mp hp
    exact R.valid_multiply (hitems i hi) i.2
  obtain ⟨hvalid, hread⟩ := R.sum_spec hmultiples R.valid_identity
  refine ⟨hvalid, ?_⟩
  rw [hread, R.read_identity, zero_add, List.map_map]
  congr 1
  apply List.map_congr_left
  intro i hi
  exact R.read_multiply (hitems i hi) i.2

/-- A list of valid points holds no identity exactly if none of them is read as zero. -/
theorem any_isIdentity_eq_false_iff {ps : List P} (hps : ∀ p ∈ ps, R.Valid p) :
    ps.any G.isIdentity = false ↔ ∀ p ∈ ps, R.read p ≠ 0 := by
  rw [List.any_eq_false]
  constructor
  · intro h p hp hzero
    exact h p hp ((R.isIdentity_iff (hps p hp)).mpr hzero)
  · intro h p hp hidentity
    exact h p hp ((R.isIdentity_iff (hps p hp)).mp hidentity)

/-- Where the shards can be counted, a sum of valid points over them is read as the sum of what the
    points are read as. -/
theorem shardSum_spec {w : Shard.Workers} {ps : List P} {n : Nat}
    (hcount : w.count ps.length = .ok n) (hps : ∀ p ∈ ps, R.Valid p) :
    ∃ total, Shard.sum G w ps G.identity = .ok total ∧ R.Valid total ∧
      R.read total = (ps.map R.read).sum := by
  have hone := Shard.Workers.one_le_of_count hcount
  have hpiece : ∀ piece ∈ Shard.chunks n ps, ∀ p ∈ piece, R.Valid p := fun piece hpiece p hp =>
    hps p (Shard.mem_of_mem_chunks hone hpiece hp)
  -- each shard is read as the sum of its points, and the shards put together are the list
  have hread : ∀ piece ∈ Shard.chunks n ps,
      R.read (G.sum piece G.identity) = (piece.map R.read).sum := by
    intro piece hp
    rw [R.read_sum (hpiece piece hp) R.valid_identity, R.read_identity, zero_add]
  have hpartial : ∀ p ∈ (Shard.chunks n ps).map fun piece => G.sum piece G.identity,
      R.Valid p := by
    intro p hp
    obtain ⟨piece, hmem, rfl⟩ := List.mem_map.mp hp
    exact R.valid_sum (hpiece piece hmem) R.valid_identity
  obtain ⟨hvalid, htotal⟩ := R.sum_spec hpartial R.valid_identity
  refine ⟨_, by rw [Shard.sum, Shard.shards, hcount]; rfl, hvalid, ?_⟩
  rw [htotal, R.read_identity, zero_add, List.map_map]
  calc ((Shard.chunks n ps).map fun piece => R.read (G.sum piece G.identity)).sum
      = ((Shard.chunks n ps).map fun piece => (piece.map R.read).sum).sum := by
        rw [List.map_congr_left hread]
    _ = ((Shard.chunks n ps).flatten.map R.read).sum := by
        rw [List.map_flatten, List.sum_flatten, List.map_map]; rfl
    _ = (ps.map R.read).sum := by rw [Shard.flatten_chunks hone]

/-! ## Narrowed to an order -/

/-- A point that is valid and passes the test for an order. -/
def HasOrder (order : Nat) (p : P) : Prop := R.Valid p ∧ G.hasOrder order p = true

theorem hasOrder_of_read {order : Nat} {p : P} (hp : R.Valid p) (h : order • R.read p = 0) :
    R.HasOrder order p :=
  ⟨hp, (R.hasOrder_iff hp order).mpr h⟩

theorem HasOrder.nsmul_read {R : Reading G A} {order : Nat} {p : P} (h : R.HasOrder order p) :
    order • R.read p = 0 :=
  (R.hasOrder_iff h.1 order).mp h.2

open Classical in
/-- What a point is read as, if the order kills it. -/
noncomputable def readOrder (order : Nat) (p : P) : AddSubgroup.torsionBy A (order : ℤ) :=
  if h : order • R.read p = 0 then ⟨R.read p, AddSubgroup.torsionBy.nsmul_iff.mpr h⟩ else 0

theorem coe_readOrder {order : Nat} {p : P} (h : order • R.read p = 0) :
    (R.readOrder order p : A) = R.read p := by
  rw [readOrder, dif_pos h]

/-- The reading of the points that pass the test for an order, as elements of the subgroup that the
    order kills. -/
noncomputable def ofOrder (order : Nat) : Reading G (AddSubgroup.torsionBy A (order : ℤ)) where
  Valid := R.HasOrder order
  read := R.readOrder order
  valid_identity :=
    R.hasOrder_of_read R.valid_identity (by rw [R.read_identity, nsmul_zero])
  read_identity := by
    apply Subtype.ext
    rw [R.coe_readOrder (by rw [R.read_identity, nsmul_zero]), R.read_identity]
    rfl
  valid_double hp := by
    refine R.hasOrder_of_read (R.valid_double hp.1) ?_
    rw [R.read_double hp.1, nsmul_add, hp.nsmul_read, add_zero]
  read_double {p} hp := by
    have hdouble := R.read_double hp.1
    apply Subtype.ext
    rw [AddSubgroup.coe_add, R.coe_readOrder hp.nsmul_read, R.coe_readOrder, hdouble]
    rw [hdouble, nsmul_add, hp.nsmul_read, add_zero]
  valid_add hp hr := by
    refine R.hasOrder_of_read (R.valid_add hp.1 hr.1) ?_
    rw [R.read_add hp.1 hr.1, nsmul_add, hp.nsmul_read, hr.nsmul_read, add_zero]
  read_add {p r} hp hr := by
    have hadd := R.read_add hp.1 hr.1
    apply Subtype.ext
    rw [AddSubgroup.coe_add, R.coe_readOrder hp.nsmul_read, R.coe_readOrder hr.nsmul_read,
      R.coe_readOrder, hadd]
    rw [hadd, nsmul_add, hp.nsmul_read, hr.nsmul_read, add_zero]
  isIdentity_iff {p} hp := by
    rw [R.isIdentity_iff hp.1, ← R.coe_readOrder hp.nsmul_read, ZeroMemClass.coe_eq_zero]

end Reading

end AggSig.GroupLaw
