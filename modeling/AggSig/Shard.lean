/-
  Cutting a list into shards that can be worked on apart.

  `chunks n items` cuts a list into `n` contiguous pieces of nearly equal length, longer ones first,
  and leaves out the empty ones; `Workers.count` tells how many pieces a list is worth.  A sum over
  shards seeds every partial sum with the start and adds the partial sums onto the start once more.

  A caller may allow any number of workers.  One that is no integer is of use only where it does not
  matter which: above the length of the list, or not above one.

  The main statements: `flatten_filter_nonempty` (leaving out empty pieces loses nothing) and
  `one_le_of_count`.
-/
import AggSig.Curve.GroupLaw
import AggSig.Failure
import AggSig.Number.Binary64

namespace AggSig.Shard

/-- How many workers a caller allows. -/
inductive Limit
  | unset
  | number (n : Number)
  /-- What was given is no number. -/
  | unusable

/-- How many workers may be used, and how many processors there are. -/
structure Workers where
  limit : Limit
  processors : Nat

namespace Workers

/-- The number of workers that are wanted.  Without a limit, or with a limit of zero, there is one for
    every processor. -/
def wanted (w : Workers) : Except Failure Number :=
  let all := Number.whole (max 1 w.processors)
  match w.limit with
  | .unset => .ok all
  | .number n => .ok (if n.isZero then all else n)
  | .unusable => .error .inconvertible

/-- The number of workers for a number of items: no more than there are items, but at least one. -/
def share (w : Workers) (items : Number) : Except Failure Number := do
  return Number.greatest (.whole 1) (Number.least (← w.wanted) items)

/-- How many shards a list of the given length is cut into. -/
def count (w : Workers) (length : Nat) : Except Failure Nat := do
  match ← w.share (.whole length) with
  | .whole n => return n.toNat
  | .fraction _ => throw .inconvertible

/-- There is always a chunk. -/
theorem one_le_of_count {w : Workers} {length n : Nat} (h : w.count length = .ok n) : 1 ≤ n := by
  simp only [count, share] at h
  cases hw : w.wanted with
  | error failure => simp [hw, bind, Except.bind] at h
  | ok wanted =>
    simp only [hw, bind, Except.bind, pure, Except.pure, Number.greatest] at h
    generalize Number.least wanted (.whole length) = least at h
    split at h
    · next m hm =>
      cases h
      split at hm
      · next hlt =>
        subst hm
        simp [Number.below_whole] at hlt
        omega
      · cases hm
        decide
    · cases h

end Workers

/-- Pieces of the given lengths, cut off one after the other. -/
def cut {α : Type} : List Nat → List α → List (List α)
  | [], _ => []
  | n :: ns, items => items.take n :: cut ns (items.drop n)

/-- The lengths of `count` nearly equal parts of a length, longer ones first. -/
def lengths (count length : Nat) : List Nat :=
  (List.range count).map fun i => length / count + if i < length % count then 1 else 0

/-- The list in `count` contiguous pieces of nearly equal length, without the empty ones. -/
def chunks {α : Type} (count : Nat) (items : List α) : List (List α) :=
  (cut (lengths count items.length) items).filter fun piece => !piece.isEmpty

/-- The list in as many pieces as a number says: none if it is negative. -/
def chunksOf {α : Type} (count : Number) (items : List α) : Except Failure (List (List α)) :=
  if count.isZero then .error .divisionByZero
  else
    match count with
    | .whole n => .ok (chunks n.toNat items)
    | .fraction _ => .error .inconvertible

/-- The list in as many pieces as it is worth. -/
def shards {α : Type} (w : Workers) (items : List α) : Except Failure (List (List α)) := do
  return chunks (← w.count items.length) items

/-- The sum of the points over shards. -/
def sum {P : Type} (G : GroupLaw P) (w : Workers) (points : List P) (start : P) :
    Except Failure P := do
  let partials := (← shards w points).map fun piece => G.sum piece start
  return G.sum partials start

/-- Leaving out the empty pieces loses nothing. -/
theorem flatten_filter_nonempty {α : Type} (pieces : List (List α)) :
    (pieces.filter fun piece => !piece.isEmpty).flatten = pieces.flatten := by
  induction pieces with
  | nil => rfl
  | cons piece pieces ih =>
    cases piece with
    | nil => simpa using ih
    | cons a as => simpa using ih

end AggSig.Shard
