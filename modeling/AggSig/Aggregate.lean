/-
  Aggregation: sums of elements of one family.

  The members of a list may come in any mix of decoded and wire values, and each is coerced to the
  family before anything is added.  The sharded sums add the same points in another grouping.
-/
import AggSig.Key.Pair
import AggSig.Shard

namespace AggSig

/-- How many workers a value allows.  Nothing, zero and what is empty set no limit. -/
def Value.limit {P₁ P₂ : Type} (v : Value P₁ P₂) : Shard.Limit :=
  if v.isTrue = false then .unset
  else
    match v.number? with
    | some n => .number n
    | none => .unusable

/-- The number of workers for as many items as a value says. -/
def Value.share {P₁ P₂ : Type} (v : Value P₁ P₂) (w : Shard.Workers) : Except Failure Number :=
  match v.number? with
  | some n => w.share n
  | none => .error .inconvertible

namespace Suite

variable {P₁ P₂ T : Type} (S : Suite P₁ P₂ T)

/-- The element plus every member of a list. -/
def aggregateOnto (f : Family) (p : f.Point P₁ P₂) (values : List (Value P₁ P₂)) :
    Except Failure (f.Point P₁ P₂) := do
  return (S.group f).sum (← S.coerceAll f values) p

/-- The sum of the members of a list that is not empty. -/
def aggregateList (f : Family) (values : List (Value P₁ P₂)) : Except Failure (f.Point P₁ P₂) :=
  match values with
  | [] => .error (.nothingToAggregate f)
  | first :: rest => do S.aggregateOnto f (← S.coerce f first false) rest

/-- The sum of the members of a list that is not empty, added in shards. -/
def aggregateShards (w : Shard.Workers) (f : Family) (values : List (Value P₁ P₂)) :
    Except Failure (f.Point P₁ P₂) := do
  let points ← S.coerceAll f values
  if points.isEmpty then .error (.nothingToAggregate f)
  else Shard.sum (S.group f).toGroupLaw w points (S.group f).identity

/-! ## On any value that can be walked -/

/-- The sum of the members of a value. -/
def aggregate (f : Family) (values : Value P₁ P₂) : Except Failure (f.Point P₁ P₂) := do
  S.aggregateList f (← S.items values)

/-- The element plus the members of a value. -/
def aggregateWith (f : Family) (p : f.Point P₁ P₂) (values : Value P₁ P₂) :
    Except Failure (f.Point P₁ P₂) := do
  S.aggregateOnto f p (← S.items values)

/-- The sum of the members of a value, added in shards. -/
def shardedAggregate (w : Shard.Workers) (f : Family) (values : Value P₁ P₂) :
    Except Failure (f.Point P₁ P₂) := do
  S.aggregateShards w f (← S.items values)

/-- The element plus the members of a value, which are added in shards first.  Nothing to add leaves
    the element as it is. -/
def shardedAggregateWith (w : Shard.Workers) (f : Family) (p : f.Point P₁ P₂)
    (values : Value P₁ P₂) : Except Failure (f.Point P₁ P₂) := do
  let members ← S.items values
  if members.isEmpty then return p
  else return (S.group f).sum [← S.aggregateShards w f members] p

end Suite

end AggSig
