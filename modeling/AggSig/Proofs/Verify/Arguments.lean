/-
  Arguments that are decoded already.

  An element is taken as the point that it is (`coerce_of`), and a list of elements as the list of their
  points (`coerceAll_elements`).  A list is aggregated by coercing all of it and adding what comes out
  (`aggregateList_eq`).  Where the points of a family can be read, a sum of elements that is not empty
  is read as the sum of what the points are read as, whether it is added one by one
  (`aggregateList_spec`) or in shards (`aggregateShards_spec`).  Lists that match pass the checks that
  are made of them first.  All of this holds in every suite.
-/
import AggSig.Proofs.Curve.Reading
import AggSig.Proofs.Outcome

namespace AggSig

/-- The elements of a family that the points of a list make, as arguments. -/
def elements {P₁ P₂ : Type} (f : Family) (points : List (f.Point P₁ P₂)) : List (Value P₁ P₂) :=
  points.map fun p => .element (.of f p)

@[simp] theorem length_elements {P₁ P₂ : Type} (f : Family) (points : List (f.Point P₁ P₂)) :
    (elements f points).length = points.length :=
  List.length_map _

theorem isEmpty_elements {P₁ P₂ : Type} {f : Family} {points : List (f.Point P₁ P₂)}
    (hne : points ≠ []) : (elements f points).isEmpty = false := by
  cases points with
  | nil => exact absurd rfl hne
  | cons p rest => rfl

/-- Whether a list is empty is a matter of its length. -/
theorem isEmpty_eq_of_length_eq {α β : Type} {items : List α} {others : List β}
    (h : items.length = others.length) : items.isEmpty = others.isEmpty := by
  rw [Bool.eq_iff_iff, List.isEmpty_iff_length_eq_zero, List.isEmpty_iff_length_eq_zero, h]

namespace Suite

variable {P₁ P₂ T : Type} (S : Suite P₁ P₂ T)

/-- An element of the family is taken as it is. -/
@[simp] theorem coerce_of (f : Family) (p : f.Point P₁ P₂) (allowIdentity : Bool) :
    S.coerce f (.element (.of f p)) allowIdentity = .ok p := by
  rw [coerce, Element.as?_of]

theorem coerce_key (p : P₁) (allowIdentity : Bool) :
    S.coerce .key (.element (.key p)) allowIdentity = .ok p :=
  S.coerce_of .key p allowIdentity

theorem coerce_signature (p : P₂) (allowIdentity : Bool) :
    S.coerce .signature (.element (.signature p)) allowIdentity = .ok p :=
  S.coerce_of .signature p allowIdentity

theorem coerce_proof (p : P₂) (allowIdentity : Bool) :
    S.coerce .proof (.element (.proof p)) allowIdentity = .ok p :=
  S.coerce_of .proof p allowIdentity

theorem coerceAll_cons (f : Family) (v : Value P₁ P₂) (rest : List (Value P₁ P₂)) :
    S.coerceAll f (v :: rest) = S.coerce f v false >>= fun p => (p :: ·) <$> S.coerceAll f rest := by
  rw [coerceAll, List.mapM_cons]
  rfl

/-- Elements of the family are taken as they are. -/
@[simp] theorem coerceAll_elements (f : Family) (points : List (f.Point P₁ P₂)) :
    S.coerceAll f (elements f points) = .ok points := by
  rw [elements]
  induction points with
  | nil => rfl
  | cons p rest ih => rw [List.map_cons, coerceAll_cons, coerce_of, ih]; rfl

/-! ## Sums -/

/-- The sum of points, if there are any: the first one, and the others added onto it. -/
def total (f : Family) : List (f.Point P₁ P₂) → Except Failure (f.Point P₁ P₂)
  | [] => .error (.nothingToAggregate f)
  | p :: rest => .ok ((S.group f).sum rest p)

/-- The sum of points over shards, if there are any. -/
def shardedTotal (w : Shard.Workers) (f : Family) (points : List (f.Point P₁ P₂)) :
    Except Failure (f.Point P₁ P₂) :=
  if points.isEmpty then .error (.nothingToAggregate f)
  else Shard.sum (S.group f).toGroupLaw w points (S.group f).identity

/-- What is aggregated is coerced first and then added. -/
theorem aggregateList_eq (f : Family) (values : List (Value P₁ P₂)) :
    S.aggregateList f values = S.coerceAll f values >>= S.total f := by
  cases values with
  | nil => rfl
  | cons first rest =>
    rw [coerceAll, List.mapM_cons]
    simp only [bind_assoc, pure_bind]
    rfl

theorem aggregateShards_eq (w : Shard.Workers) (f : Family) (values : List (Value P₁ P₂)) :
    S.aggregateShards w f values = S.coerceAll f values >>= S.shardedTotal w f := rfl

section

variable {f : Family} {A : Type} [AddCommGroup A] (R : GroupLaw.Reading (S.group f).toGroupLaw A)
  {points : List (f.Point P₁ P₂)} (hne : points ≠ []) (hpoints : ∀ p ∈ points, R.Valid p)

include hne hpoints

/-- The sum of valid points is read as the sum of what the points are read as. -/
theorem total_spec :
    ∃ t, S.total f points = .ok t ∧ R.Valid t ∧ R.read t = (points.map R.read).sum := by
  cases points with
  | nil => exact absurd rfl hne
  | cons p rest =>
    obtain ⟨hp, hrest⟩ := List.forall_mem_cons.mp hpoints
    obtain ⟨hvalid, hread⟩ := R.sum_spec hrest hp
    exact ⟨_, rfl, hvalid, hread⟩

/-- So is the sum over shards. -/
theorem shardedTotal_spec {w : Shard.Workers} (hw : w.limit.Whole) :
    ∃ t, S.shardedTotal w f points = .ok t ∧ R.Valid t ∧ R.read t = (points.map R.read).sum := by
  obtain ⟨n, hcount⟩ := Shard.Workers.exists_count hw points.length
  rw [shardedTotal, if_neg (fun h => hne (List.isEmpty_iff.mp h))]
  exact R.shardSum_spec hcount hpoints

/-- A sum of elements, read in the group of their family. -/
theorem aggregateList_spec :
    ∃ t, S.aggregateList f (elements f points) = .ok t ∧ R.Valid t ∧
      R.read t = (points.map R.read).sum := by
  rw [aggregateList_eq, coerceAll_elements]
  exact S.total_spec R hne hpoints

/-- The same sum, added in shards. -/
theorem aggregateShards_spec {w : Shard.Workers} (hw : w.limit.Whole) :
    ∃ t, S.aggregateShards w f (elements f points) = .ok t ∧ R.Valid t ∧
      R.read t = (points.map R.read).sum := by
  rw [aggregateShards_eq, coerceAll_elements]
  exact S.shardedTotal_spec R hne hpoints hw

end

/-! ## Lists that match -/

/-- As many messages as keys, and at least one, pass the check of their lengths. -/
theorem checkDistinct_eq_ok {check : ListCheck} {keys messages : List (Value P₁ P₂)}
    (hlength : keys.length = messages.length) (hne : keys ≠ []) :
    checkDistinct check keys messages = .ok () := by
  have hempty : ¬ keys.isEmpty = true := by rwa [List.isEmpty_iff]
  rw [checkDistinct, if_neg (not_not.mpr hlength), if_neg hempty]

/-- The checks of their lengths look at nothing but the lengths. -/
theorem checkDistinct_congr (check : ListCheck) {keys keys' : List (Value P₁ P₂)}
    (h : keys.length = keys'.length) (messages : List (Value P₁ P₂)) :
    checkDistinct check keys messages = checkDistinct check keys' messages := by
  rw [checkDistinct, checkDistinct, h, isEmpty_eq_of_length_eq h]

/-- The check of the signatures looks at the lengths only. -/
theorem checkSignatures_congr (check : ListCheck) {keys keys' signatures signatures' : List (Value P₁ P₂)}
    (h : keys.length = keys'.length) (h' : signatures.length = signatures'.length) :
    checkSignatures check keys signatures = checkSignatures check keys' signatures' := by
  rw [checkSignatures, checkSignatures, h, h']

/-- Elements of as many proofs as keys, and at least one of each, are the members of a batch. -/
theorem batchMembers_elements {keys : List P₁} {proofs : List P₂}
    (hlength : keys.length = proofs.length) (hne : keys ≠ []) :
    S.batchMembers (elements .key keys) (elements .proof proofs) = .ok (keys, proofs) := by
  have hlengths : (elements .key keys : List (Value P₁ P₂)).length =
      (elements .proof proofs : List (Value P₁ P₂)).length := by
    rw [length_elements, length_elements]
    exact hlength
  have hempty : (elements .key keys : List (Value P₁ P₂)).isEmpty = false := isEmpty_elements hne
  rw [batchMembers, if_neg (not_not.mpr hlengths), hempty, coerceAll_elements, coerceAll_elements]
  rfl

end Suite

end AggSig
