/-
  When two values are equal, and what remains of a row of values without repetitions.

  Elements are equal as points of one family; secret keys and keypairs as numbers; numbers by their
  exact value, whatever their kind.  A wire value equals any plain byte string with its bytes, but no
  wire value of another family or form.  Lists are compared member by member once their lengths agree;
  pairs and raw points are compared up to the end of the shorter one before their lengths are.

  A coordinate can be compared with its own kind only, one of the prime field with integers too, and
  any other comparison fails.

  Repetitions are found through digests: a value repeats a kept one if it has the same digest and is
  equal to it.  The digest of an element is its compressed encoding, so that an element which has none
  cannot be kept, and neither can a value that has no digest.
-/
import AggSig.Value

namespace AggSig.Suite

variable {P₁ P₂ T : Type} (S : Suite P₁ P₂ T)

/-! ## Equality -/

/-- Whether two elements are the same point of the same family. -/
def sameElement : Element P₁ P₂ → Element P₁ P₂ → Bool
  | .key p, .key r => S.group₁.same p r
  | .signature p, .signature r => S.group₂.same p r
  | .proof p, .proof r => S.group₂.same p r
  | _, _ => false

/-- Whether two values that are neither lists, pairs, points nor coordinates are equal.  A stream
    equals no other. -/
def equalAtoms (v w : Value P₁ P₂) : Bool :=
  match v, w with
  | .wire v, .wire w => v = w
  | .element e, .element e' => S.sameElement e e'
  | .secretKey k, .secretKey k' => k = k'
  | .keypair k, .keypair k' => k = k'
  | .text s, .text s' => s = s'
  | .absent, .absent => true
  | v, w =>
    match v.content?, w.content? with
    | some content, some content' => content = content'
    | _, _ =>
      match v.number?, w.number? with
      | some n, some n' => n.same n'
      | _, _ => false

/-- Whether a coordinate equals a value. -/
def meets (c : Coordinate) (v : Value P₁ P₂) : Except Failure Bool :=
  match c, v with
  | .prime a, .coordinate (.prime b) => .ok (a = b)
  | .extension a, .coordinate (.extension b) => .ok (a = b)
  | .extension _, v => .error (.foreignOperand .extension v.className)
  | .prime a, v =>
    match v.integer? with
    | some n => .ok (n = a.val)
    | none => .error (.foreignOperand .prime v.className)

/-- Whether coordinates equal the members of a row, one by one. -/
def meetsAll : List Coordinate → List (Value P₁ P₂) → Except Failure Bool
  | [], [] => .ok true
  | c :: cs, v :: vs => do if ← meets c v then meetsAll cs vs else return false
  | _, _ => .ok false

/-- Whether the coordinates of a point equal the members of a pair or of another point. -/
def meetsRow (cs : List Coordinate) (v : Value P₁ P₂) : Except Failure Bool :=
  match v with
  | .pair .. | .point₁ _ | .point₂ _ => do meetsAll cs (← S.members v)
  | _ => .ok false

mutual

/-- Whether two values are equal. -/
def equal (v w : Value P₁ P₂) : Except Failure Bool :=
  match v, w with
  | .coordinate c, w => meets c w
  | v, .coordinate c => meets c v
  | .list vs, .list ws => if vs.length = ws.length then equalAll vs ws else .ok false
  | .pair v v', .pair w w' => do if ← equal v w then equal v' w' else return false
  | .point₁ p, w => S.meetsRow (S.group₁.coordinates p) w
  | .point₂ p, w => S.meetsRow (S.group₂.coordinates p) w
  | v, .point₁ p => S.meetsRow (S.group₁.coordinates p) v
  | v, .point₂ p => S.meetsRow (S.group₂.coordinates p) v
  | v, w => .ok (S.equalAtoms v w)

/-- Whether two lists of one length have equal members in equal places. -/
def equalAll : List (Value P₁ P₂) → List (Value P₁ P₂) → Except Failure Bool
  | v :: vs, w :: ws => do if ← equal v w then equalAll vs ws else return false
  | _, _ => .ok true

end

/-! ## Rows without repetitions -/

/-- What two values have in common if one can repeat the other. -/
inductive Digest
  | bytes (content : Bytes)
  | element (typeName : String) (content : Bytes)
  | text (s : String)
  | integer (n : Int)
  | fraction (x : Binary64)
  | pair (first second : Digest)
  | absent
  /-- The value repeats nothing. -/
  | unique
  deriving DecidableEq

/-- The digest of a value.  Lists, points and changeable byte strings have none. -/
def digest (v : Value P₁ P₂) : Except Failure Digest :=
  match v with
  | .wire w => .ok (.bytes w.bytes)
  | .buffer .changeable _ => .error .inconvertible
  | .buffer _ content => .ok (.bytes content)
  | .element e => do return .element e.typeName (← S.toCompressed e).bytes
  | .secretKey k => .ok (.bytes k.toBytes)
  | .keypair k => .ok (.bytes k.secret.toBytes)
  | .text s => .ok (.text s)
  | .integer n => .ok (.integer n)
  | .truth b => .ok (.integer (if b then 1 else 0))
  | .fraction x =>
    .ok (match x.integer? with
      | some n => .integer n
      | none => .fraction x)
  | .pair first second => do return .pair (← digest first) (← digest second)
  | .absent => .ok .absent
  | .textStream _ | .byteStream _ => .ok .unique
  | .list _ | .point₁ _ | .point₂ _ | .coordinate _ => .error .inconvertible

/-- Whether a value with a digest repeats one of the kept values, which come with their digests. -/
def repeats (d : Digest) (v : Value P₁ P₂) :
    (kept : List (Digest × Value P₁ P₂)) → Except Failure Bool
  | [] => .ok false
  | (d', v') :: kept => do
    if d = d' then
      if ← S.equal v' v then return true
    repeats d v kept

/-- The indices of the values that repeat no kept one before them; the first value has the given index,
    and the kept ones come with their digests. -/
def distinctFrom (index : Nat) (kept : List (Digest × Value P₁ P₂)) :
    List (Value P₁ P₂) → Except Failure (List Nat)
  | [] => .ok []
  | v :: vs => do
    let d ← S.digest v
    if ← S.repeats d v kept then distinctFrom (index + 1) kept vs
    else return index :: (← distinctFrom (index + 1) (kept ++ [(d, v)]) vs)

/-- The indices of the values that repeat none before them. -/
def distinct (values : List (Value P₁ P₂)) : Except Failure (List Nat) := S.distinctFrom 0 [] values

end AggSig.Suite
