/-
  Raw points: what is done with points that belong to no family.

  Raw points come as loosely typed values, so a point of one group may stand where one of the other is
  expected, and so may any other value.  Each operation does what it would do with a proper point for
  as long as that makes sense, and fails at the first step that does not: a point at infinity passes
  for one of the other group, a coordinate cannot be combined with one of another field, and what has
  no coordinates is no point.
-/
import AggSig.Equality
import AggSig.Possession

namespace AggSig.Suite

variable {P₁ P₂ T : Type} (S : Suite P₁ P₂ T)

/-! ## Taking values apart -/

/-- The failure to combine a coordinate of a group with what was expected. -/
def foreign (expected : Operand) (side : Side) : Failure :=
  .foreignOperand expected side.fieldClass

/-- The two members of a value. -/
def two (v : Value P₁ P₂) : Except Failure (Value P₁ P₂ × Value P₁ P₂) := do
  match ← S.items v with
  | [first, second] => return (first, second)
  | _ => throw .wrongCount

/-- The three members of a value. -/
def three (v : Value P₁ P₂) : Except Failure (Value P₁ P₂ × Value P₁ P₂ × Value P₁ P₂) := do
  match ← S.items v with
  | [x, y, z] => return (x, y, z)
  | _ => throw .wrongCount

/-- Whether a value is a point at infinity. -/
def isInfinite (v : Value P₁ P₂) : Except Failure Bool :=
  match v with
  | .point₁ p => .ok (S.group₁.isIdentity p)
  | .point₂ p => .ok (S.group₂.isIdentity p)
  | v => do
    if (← S.members v).isEmpty then throw .noMember else throw .unsuitable

/-! ## Encodings -/

/-- The encoding of a point in a form of the given group. -/
def encodePoint (side : Side) (form : Form) (v : Value P₁ P₂) : Except Failure Bytes :=
  match side, v with
  | .g1, .point₁ p => S.group₁.encode form p
  | .g2, .point₂ p => S.group₂.encode form p
  | side, v => do
    if ← S.isInfinite v then
      match side with
      | .g1 => S.group₁.encode form S.group₁.identity
      | .g2 => S.group₂.encode form S.group₂.identity
    else
      match side, form with
      | .g1, .affine => throw .inconvertible
      | .g2, .compressed => throw (foreign .factor .g1)
      | _, _ => throw .unsuitable

/-- The point that a public key, given as a raw point, hashes to. -/
def hashPoint (v : Value P₁ P₂) : Except Failure P₂ :=
  S.hash .possession <$> S.encodePoint .g1 .compressed v

/-! ## Arithmetic -/

/-- The coordinate of a group's field that a value stands for. -/
def coordinateFor (side : Side) (v : Value P₁ P₂) : Except Failure Coordinate :=
  match side, v, v.integer? with
  | .g1, .coordinate (.prime a), _ => .ok (.prime a)
  | .g2, .coordinate (.extension a), _ => .ok (.extension a)
  | .g1, _, some n => .ok (.prime (Fq.ofInt n))
  | .g2, _, some n => .ok (.extension ⟨Fq.ofInt n, 0⟩)
  | .g1, v, none => .error (.foreignOperand .prime v.className)
  | .g2, v, none => .error (.foreignOperand .factor v.className)

/-- The product of two coordinates, one of them possibly being an integer, or of two integers. -/
def product (v w : Value P₁ P₂) : Except Failure (Value P₁ P₂) :=
  match v, w with
  | .coordinate c, w => do times c (← coordinateFor c.side w)
  | v, .coordinate c => do times (← coordinateFor c.side v) c
  | v, w =>
    match v.integer?, w.integer? with
    | some m, some n => .ok (.integer (m * n))
    | _, _ => .error .inconvertible
where
  /-- The product of two coordinates of one field. -/
  times : Coordinate → Coordinate → Except Failure (Value P₁ P₂)
    | .prime a, .prime b => .ok (.coordinate (.prime (a * b)))
    | .extension a, .extension b => .ok (.coordinate (.extension (a * b)))
    | _, _ => .error .inconvertible

/-- Whether two values are the same point. -/
def samePoint (v w : Value P₁ P₂) : Except Failure Bool :=
  match v, w with
  | .point₁ p, .point₁ r => .ok (S.group₁.same p r)
  | .point₂ p, .point₂ r => .ok (S.group₂.same p r)
  | v, w => do
    let (x, y, z) ← S.three v
    let (x', y', z') ← S.three w
    if ← S.equal (← product x z') (← product x' z) then
      S.equal (← product y z') (← product y' z)
    else return false

/-- Whether a value is a point of the subgroup.  Three plain numbers can be doubled like coordinates,
    but are no point for all that. -/
def inSubgroup (v : Value P₁ P₂) : Except Failure Bool :=
  match v with
  | .point₁ p => .ok (S.group₁.hasOrder groupOrder p)
  | .point₂ p => .ok (S.group₂.hasOrder groupOrder p)
  | v => do
    let (x, y, z) ← S.three v
    if [x, y, z].all fun coordinate => coordinate.number?.isSome then throw .unsuitable
    else throw .inconvertible

/-- The zero coordinate of a group. -/
def zeroCoordinate : Side → Coordinate
  | .g1 => .prime 0
  | .g2 => .extension 0

/-- The sum of a point of a group and of something that is no point of it; `ofPoint` makes the point a
    value.  What has a zero in third place counts as a point at infinity, and what has not is the sum
    where the point itself is at infinity. -/
def addForeign {P : Type} (G : Group P) (side : Side) (ofPoint : P → Value P₁ P₂) (p : P)
    (v : Value P₁ P₂) : Except Failure (Value P₁ P₂) := do
  match (← S.members v)[2]? with
  | none => throw .noMember
  | some z =>
    if ← S.equal z (.coordinate (zeroCoordinate side)) then return ofPoint p
    else if G.isIdentity p then return v
    else
      let (x, y, z) ← S.three v
      let y ← coordinateFor side y
      let x ← coordinateFor side x
      let z ← coordinateFor side z
      match G.ofCoordinates? [x, y, z] with
      | some r => return ofPoint (G.add p r)
      | none => throw .inconvertible

/-- The sum of two values as points. -/
def addPoints (v w : Value P₁ P₂) : Except Failure (Value P₁ P₂) :=
  match v, w with
  | .point₁ p, .point₁ r => .ok (.point₁ (S.group₁.add p r))
  | .point₂ p, .point₂ r => .ok (.point₂ (S.group₂.add p r))
  | .point₁ p, w => S.addForeign S.group₁ .g1 .point₁ p w
  | .point₂ p, w => S.addForeign S.group₂ .g2 .point₂ p w
  | v, _ => do
    if (← S.members v).isEmpty then throw .noMember else throw .unsuitable

/-- The sum of the points, added from left to right onto a start.  No points leave the start as it is,
    whatever it is. -/
def sumPoints (points : List (Value P₁ P₂)) (start : Value P₁ P₂) :
    Except Failure (Value P₁ P₂) :=
  points.foldlM S.addPoints start

/-- The sum of the members of a value. -/
def sumOf (points start : Value P₁ P₂) : Except Failure (Value P₁ P₂) := do
  S.sumPoints (← S.items points) start

/-- The sum of the members of the first member of a value onto its second member. -/
def sumOfJob (job : Value P₁ P₂) : Except Failure (Value P₁ P₂) := do
  let (points, start) ← S.two job
  S.sumOf points start

/-- The sum of the members of a value, added in shards. -/
def shardedSumOf (w : Shard.Workers) (points start : Value P₁ P₂) :
    Except Failure (Value P₁ P₂) := do
  let shards ← Shard.shards w (← S.members points)
  let partials ← shards.mapM fun shard => S.sumPoints shard start
  S.sumPoints partials start

/-! ## Shards -/

/-- The members of a value in as many pieces as a value says. -/
def chunksOf (v count : Value P₁ P₂) : Except Failure (List (List (Value P₁ P₂))) := do
  let members ← S.members v
  match count.number? with
  | some n => Shard.chunksOf n members
  | none => throw .inconvertible

/-! ## Pairings -/

section

variable [One T] [Mul T] [DecidableEq T]

/-- The pairing of two values.  A point of the wrong group can only be at infinity, and then the
    pairing is one, if the other point is on its curve. -/
def pairPoints (q p : Value P₁ P₂) : Except Failure T :=
  match q, p with
  | .point₂ q, .point₁ p => S.pair q p
  | q, p => do
    match q with
    | .point₂ q => let _ ← S.pair q S.group₁.identity
    | q => if (← S.isInfinite q) = false then throw (foreign .factor .g1)
    match p with
    | .point₁ p => let _ ← S.pair S.group₂.identity p
    | p => if (← S.isInfinite p) = false then throw (foreign .prime .g2)
    return 1

/-- The product of the pairings of the members of a value, each of which has two members. -/
def pairingsOf (pairs : List (Value P₁ P₂)) : Except Failure T :=
  pairs.foldlM (fun (product : T) pair => do
    let (q, p) ← S.two pair
    return product * (← S.pairPoints q p)) 1

/-- Whether the pairings of the members of a value multiply to one. -/
def checkPairings (pairs : Value P₁ P₂) : Except Failure Bool := do
  return S.isOne (← S.pairingsOf (← S.items pairs))

/-- Whether a raw signature of a hashed message is valid for a raw key. -/
def verifyPoints (key hashed signature : Value P₁ P₂) : Except Failure Bool := do
  if ← S.isInfinite key then return false
  else
    return S.isOne
      (← S.pairingsOf [.pair hashed key, .pair signature (.point₁ S.generatorNeg)])

/-- The product of the pairings of messages with raw keys. -/
def pairingsOfMessages (items : List (Bytes × Value P₁ P₂)) : Except Failure T :=
  S.pairingsOf (items.map fun (message, k) => .pair (.point₂ (S.hash .message message)) k)

/-- The product of the pairings of the messages with the keys that the members of a value hold. -/
def pairingsOfItems (items : Value P₁ P₂) : Except Failure T := do
  let hashed ← (← S.items items).mapM fun item => do
    let (message, k) ← S.two item
    return Value.pair (.point₂ (← S.hashMessage message)) k
  S.pairingsOf hashed

/-- The product of the pairings of messages with raw keys, computed in shards.  Members of the longer
    list that have no partner are left out. -/
def shardedPairingsOf (w : Shard.Workers) (keys messages : Value P₁ P₂) : Except Failure T := do
  let keys ← S.items keys
  let contents ← ((← S.items messages).take keys.length).mapM S.bytesOf
  let shards ← Shard.shards w (contents.zip keys)
  return (← shards.mapM S.pairingsOfMessages).foldl (· * ·) 1

end

end AggSig.Suite
