/-
  What callers hand in, and how it is taken.

  The entry points accept loosely typed arguments: an element may come decoded or in either wire form,
  a message as any kind of byte string, a list as anything that can be walked.  `Value` is such an
  argument.  It is taken as bytes by `bytesOf`, as a list by `items`, and as an element of a family by
  `coerce`, which is the one place where families are kept apart.
-/
import AggSig.Key.Secret
import AggSig.Number.Binary64
import AggSig.Suite
import AggSig.Wire

namespace AggSig

/-- The kinds of plain byte string: constant, changeable, and borrowed. -/
inductive BufferKind
  | constant
  | changeable
  | borrowed
  deriving DecidableEq

/-- An argument of an entry point. -/
inductive Value (P₁ P₂ : Type)
  | absent
  | truth (b : Bool)
  | integer (n : Int)
  | fraction (x : Binary64)
  | text (s : String)
  | list (items : List (Value P₁ P₂))
  | pair (first second : Value P₁ P₂)
  | buffer (kind : BufferKind) (content : Bytes)
  | wire (w : Wire)
  | element (e : Element P₁ P₂)
  | secretKey (k : SecretKey)
  | keypair (k : Keypair)
  | point₁ (p : P₁)
  | point₂ (p : P₂)
  | coordinate (c : Coordinate)
  /-- An open stream of text. -/
  | textStream (s : String)
  /-- An open stream of bytes. -/
  | byteStream (content : Bytes)

/-- The name of a kind of byte string. -/
def BufferKind.typeName : BufferKind → String
  | .constant => "bytes"
  | .changeable => "bytearray"
  | .borrowed => "memoryview"

/-- The name of the field that the coordinates of a group come from. -/
def Side.fieldName : Side → String
  | .g1 => "optimized_bls12_381_FQ"
  | .g2 => "optimized_bls12_381_FQ2"

/-- The group that a coordinate is one of. -/
def Coordinate.side : Coordinate → Side
  | .prime _ => .g1
  | .extension _ => .g2

/-- The name of a coordinate's field. -/
def Coordinate.typeName (c : Coordinate) : String := c.side.fieldName

/-- The name of a group's field with the place it is known under. -/
def Side.fieldClass (side : Side) : String := "py_ecc.fields." ++ side.fieldName

/-- A row cut after every occurrence of a member that ends a line. -/
def linesOf {α : Type} [DecidableEq α] (newline : α) : List α → List (List α)
  | [] => []
  | a :: rest =>
    if a = newline then [a] :: linesOf newline rest
    else
      match linesOf newline rest with
      | [] => [[a]]
      | line :: lines => (a :: line) :: lines

namespace Value

variable {P₁ P₂ : Type}

/-- A plain constant byte string. -/
def ofBytes (data : Bytes) : Value P₁ P₂ := .buffer .constant data

/-- The name of a value's type, as messages show it. -/
def typeName : Value P₁ P₂ → String
  | absent => "NoneType"
  | truth _ => "bool"
  | integer _ => "int"
  | fraction _ => "float"
  | text _ => "str"
  | list _ => "list"
  | pair .. | point₁ _ | point₂ _ => "tuple"
  | buffer kind _ => kind.typeName
  | wire w => w.typeName
  | element e => e.typeName
  | secretKey _ => "SecretKey"
  | keypair _ => "Keypair"
  | coordinate c => c.typeName
  | textStream _ => "StringIO"
  | byteStream _ => "BytesIO"

/-- The name of a value's class with the place it is known under, as failures of arithmetic show it. -/
def className : Value P₁ P₂ → String
  | coordinate c => c.side.fieldClass
  | textStream _ => "_io.StringIO"
  | byteStream _ => "_io.BytesIO"
  | v => v.typeName

/-- Whether the value counts as true: nothing, zero and what is empty do not. -/
def isTrue : Value P₁ P₂ → Bool
  | absent => false
  | truth b => b
  | integer n => n ≠ 0
  | fraction x => !x.isZero
  | text s => s ≠ ""
  | list items => !items.isEmpty
  | buffer _ content => !content.isEmpty
  | _ => true

/-- How many members a value has; a point has its three coordinates. -/
def length : Value P₁ P₂ → Except Failure Nat
  | text s => .ok s.length
  | list items => .ok items.length
  | pair .. => .ok 2
  | point₁ _ | point₂ _ => .ok 3
  | buffer _ content => .ok content.length
  | wire w => .ok w.bytes.length
  | _ => .error .inconvertible

/-- The bytes of a value that is a byte string. -/
def content? : Value P₁ P₂ → Option Bytes
  | buffer _ content => some content
  | wire w => some w.bytes
  | _ => none

/-- The integer that a value is; truth values count as one and zero. -/
def integer? : Value P₁ P₂ → Option Int
  | integer n => some n
  | truth b => some (if b then 1 else 0)
  | _ => none

/-- The number that a value is. -/
def number? : Value P₁ P₂ → Option Number
  | fraction x => some (.fraction x)
  | v => v.integer?.map .whole

/-- The secret key that a value is. -/
def asSecretKey : Value P₁ P₂ → Except Failure SecretKey
  | secretKey k => .ok k
  | _ => .error .unsuitable

/-- The secret key that a number is.  No fraction is one: those in the range of keys have no bytes. -/
def toSecretKey (v : Value P₁ P₂) : Except Failure SecretKey :=
  match v with
  | .fraction x =>
    let inRange :=
      !(Number.fraction x).below (.whole 0) && (Number.fraction x).below (.whole groupOrder)
    .error (if inRange then .unsuitable else .secretOutOfRange)
  | v =>
    match v.integer? with
    | some n => SecretKey.ofInt n
    | none => .error .inconvertible

/-- The byte that a member of a list is. -/
def byte (v : Value P₁ P₂) : Except Failure UInt8 :=
  match v.integer? with
  | some n => if 0 ≤ n ∧ n < 256 then .ok (UInt8.ofNat n.toNat) else .error .byteOutOfRange
  | none => .error .inconvertible

/-- The greatest number that can be the length of a byte string. -/
def greatestLength : Int := Int.pow 2 63 - 34

/-- The length that no memory holds any more. -/
def memoryLimit : Int := Int.pow 2 40

/-- The number of zero bytes that a number asks for. -/
def zeroCount (n : Int) : Except Failure Nat :=
  if n < -Int.pow 2 63 ∨ greatestLength < n then .error .lengthOverflow
  else if n < 0 then .error .byteOutOfRange
  else if memoryLimit ≤ n then .error .memoryExhausted
  else .ok n.toNat

/-- As many zero bytes as a number says. -/
def zeroBytes (n : Int) : Except Failure Bytes := Bytes.zeros <$> zeroCount n

/-- The wire value that a value makes: nothing makes the one of zeros, a byte string the one with its
    bytes. -/
def toWire (f : Family) (form : Form) (v : Value P₁ P₂) : Except Failure Wire :=
  match v with
  | .absent => .ok (Wire.zero f form)
  | v =>
    match v.content? with
    | some content => Wire.ofBytes f form content
    | none => .error (.notBytes f form v.typeName)

end Value

namespace Suite

variable {P₁ P₂ T : Type} (S : Suite P₁ P₂ T)

/-! ## Elements of a family -/

/-- The public key of a keypair. -/
def publicKey (k : Keypair) : P₁ := S.group₁.multiply S.generator k.secret.scalar

/-- The affine encoding of an element. -/
def encodeAffine (e : Element P₁ P₂) : Bytes := (S.group e.family).encodeAffine e.point

/-- The compressed encoding of an element. -/
def encodeCompressed (e : Element P₁ P₂) : Except Failure Bytes :=
  (S.group e.family).encodeCompressed e.point

/-- The element of a family that a byte string encodes in the form that its width tells. -/
def decodeElement (f : Family) (data : Bytes) (allowIdentity : Bool) :
    Except Failure (f.Point P₁ P₂) :=
  if data.length = f.width .affine then (S.group f).decode .affine data allowIdentity
  else if data.length = f.width .compressed then (S.group f).decode .compressed data allowIdentity
  else .error (.wrongWidth (.element f) data.length)

/-- The element of a family that a value is or encodes.  Values of other families are refused. -/
def coerce (f : Family) (v : Value P₁ P₂) (allowIdentity : Bool) : Except Failure (f.Point P₁ P₂) :=
  match v with
  | .element e =>
    match e.as? f with
    | some p => .ok p
    | none => .error (.wrongFamily f v.typeName)
  | .wire w =>
    if w.family = f then S.decodeElement f w.bytes allowIdentity
    else .error (.wrongFamily f v.typeName)
  | _ => .error (.wrongFamily f v.typeName)

/-- The points that the members of a list are or encode. -/
def coerceAll (f : Family) (values : List (Value P₁ P₂)) : Except Failure (List (f.Point P₁ P₂)) :=
  values.mapM fun v => S.coerce f v false

/-! ## Members -/

/-- The coordinates of a point, as values. -/
def coordinatesOf {P : Type} (G : Group P) (p : P) : List (Value P₁ P₂) :=
  (G.coordinates p).map .coordinate

/-- The members of a value that has them in places. -/
def members (v : Value P₁ P₂) : Except Failure (List (Value P₁ P₂)) :=
  match v with
  | .list items => .ok items
  | .pair first second => .ok [first, second]
  | .text s => .ok (s.toList.map fun c => .text (String.ofList [c]))
  | .buffer _ content => .ok (content.map fun b => .integer b.toNat)
  | .wire w => .ok (w.bytes.map fun b => .integer b.toNat)
  | .point₁ p => .ok (coordinatesOf S.group₁ p)
  | .point₂ p => .ok (coordinatesOf S.group₂ p)
  | _ => .error .inconvertible

/-- The members of a value that can be walked: those of a stream are its lines. -/
def items (v : Value P₁ P₂) : Except Failure (List (Value P₁ P₂)) :=
  match v with
  | .textStream s => .ok ((linesOf '\n' s.toList).map fun line => .text (String.ofList line))
  | .byteStream content => .ok ((linesOf 10 content).map Value.ofBytes)
  | v => S.members v

/-! ## Bytes -/

/-- The bytes of a keypair: those of its secret key, then the affine encoding of its public key. -/
def keypairBytes (k : Keypair) : Bytes :=
  k.secret.toBytes ++ S.group₁.encodeAffine (S.publicKey k)

/-- A value taken as bytes.  A number stands for that many zero bytes, a list for the bytes in it. -/
def bytesOf (v : Value P₁ P₂) : Except Failure Bytes :=
  match v with
  | .buffer _ content => .ok content
  | .wire w => .ok w.bytes
  | .element e => .ok (S.encodeAffine e)
  | .secretKey k => .ok k.toBytes
  | .keypair k => .ok (S.keypairBytes k)
  | .integer n => Value.zeroBytes n
  | .truth b => Value.zeroBytes (if b then 1 else 0)
  | .list items => items.mapM Value.byte
  | .pair first second => [first, second].mapM Value.byte
  | .textStream s => if s = "" then .ok [] else .error .inconvertible
  | .byteStream content => if content.isEmpty then .ok [] else .error .inconvertible
  | .absent | .fraction _ | .text _ | .point₁ _ | .point₂ _ | .coordinate _ =>
    .error .inconvertible

/-- How many bytes a value is taken as.  The zero bytes that a number stands for are not spelled out
    for that. -/
def byteCount (v : Value P₁ P₂) : Except Failure Nat :=
  match v with
  | .integer n => Value.zeroCount n
  | v => List.length <$> S.bytesOf v

/-- The bytes of a value that has to have the width of a thing. -/
def bytesOfWidth (sized : Sized) (v : Value P₁ P₂) : Except Failure Bytes := do
  let count ← S.byteCount v
  if count = sized.width then S.bytesOf v else .error (.wrongWidth sized count)

/-- The element that the bytes of a value encode. -/
def elementOf (f : Family) (v : Value P₁ P₂) (allowIdentity : Bool) :
    Except Failure (f.Point P₁ P₂) := do
  let count ← S.byteCount v
  if count = f.width .affine ∨ count = f.width .compressed then
    S.decodeElement f (← S.bytesOf v) allowIdentity
  else .error (.wrongWidth (.element f) count)

/-- The bytes of a value that is to be decoded.  For a compressed point of the first group a list with
    a member that is no byte is one more encoding that gives no point. -/
def encodingOf (side : Side) (form : Form) (v : Value P₁ P₂) : Except Failure Bytes :=
  match S.bytesOf v, side, form with
  | .error .byteOutOfRange, .g1, .compressed => .error (.notDecompressed .g1 .badMember)
  | result, _, _ => result

/-- The point of a group whose encoding of a form the bytes of a value are.  The number of members of
    the value has to be the width of the form. -/
def pointOf {P : Type} (G : Group P) (side : Side) (form : Form) (v : Value P₁ P₂)
    (allowIdentity : Bool) : Except Failure P := do
  let count ← v.length
  if count ≠ side.width form then throw (.wrongWidth (.point side form) count)
  else G.decode form (← S.encodingOf side form v) allowIdentity

/-- The affine wire value of an element. -/
def toAffine (e : Element P₁ P₂) : Except Failure Wire :=
  Wire.ofBytes e.family .affine (S.encodeAffine e)

/-- The compressed wire value of an element. -/
def toCompressed (e : Element P₁ P₂) : Except Failure Wire := do
  Wire.ofBytes e.family .compressed (← S.encodeCompressed e)

/-- The element that a wire value encodes. -/
def decodeWire (w : Wire) (allowIdentity : Bool) : Except Failure (Element P₁ P₂) :=
  Element.of w.family <$> S.decodeElement w.family w.bytes allowIdentity

/-- The wire value of the same element in the given form. -/
def recode (w : Wire) (form : Form) (allowIdentity : Bool) : Except Failure Wire := do
  let e ← S.decodeWire w allowIdentity
  match form with
  | .affine => S.toAffine e
  | .compressed => S.toCompressed e

end Suite

end AggSig
