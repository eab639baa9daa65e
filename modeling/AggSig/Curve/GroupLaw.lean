/-
  The additive law of a group of points, and what is built from it alone: multiples, sums and the test
  for the subgroup of a given order.

  `GroupLaw` gathers the operations so that the same multiples and sums serve both source groups, and
  so that the laws they are expected to obey can be assumed of any such record.

  `multiply` doubles before it adds: the digits of the scalar are walked from the least significant
  one, and the multiple of the doubled point is found first.  `sum` adds from left to right onto a
  given start.
-/
import AggSig.Curve.Point

namespace AggSig

/-- The operations of a group of points, each point possibly having several representations. -/
structure GroupLaw (P : Type) where
  identity : P
  double : P → P
  add : P → P → P
  isIdentity : P → Bool
  /-- Whether two representations stand for one point. -/
  same : P → P → Bool

namespace GroupLaw

variable {P : Type} (G : GroupLaw P)

/-- The multiple whose scalar has the given binary digits, least significant first.  A last digit
    stands for the point itself. -/
def multiplyBits (p : P) : List Bool → P
  | [] => G.identity
  | [_] => p
  | b :: b' :: bs =>
    let rest := multiplyBits (G.double p) (b' :: bs)
    if b then G.add rest p else rest

/-- The `n`-fold sum of a point. -/
def multiply (p : P) (n : Nat) : P := G.multiplyBits p (bits n)

/-- The sum of the points, added from left to right onto a start. -/
def sum (points : List P) (start : P) : P := points.foldl G.add start

/-- Whether the point is killed by the given order. -/
def hasOrder (order : Nat) (p : P) : Bool := G.isIdentity (G.multiply p order)

@[simp] theorem sum_nil (start : P) : G.sum [] start = start := rfl

@[simp] theorem sum_cons (p : P) (ps : List P) (start : P) :
    G.sum (p :: ps) start = G.sum ps (G.add start p) := rfl

theorem sum_append (ps rs : List P) (start : P) :
    G.sum (ps ++ rs) start = G.sum rs (G.sum ps start) := by
  simp [sum]

end GroupLaw

/-- The chord-and-tangent law on projective triples. -/
def Point.law {F : Type} [Zero F] [One F] [Add F] [Sub F] [Mul F] [DecidableEq F] :
    GroupLaw (Point F) where
  identity := Point.infinity
  double := Point.double
  add := Point.add
  isIdentity := Point.isInfinity
  same := Point.same

end AggSig
