/-
  Wire values and elements.

  A wire value is a byte string of the width that its family and form prescribe; it holds bytes only
  and may stand for no point at all.  An element is a decoded point that knows its family.
-/
import AggSig.Failure

namespace AggSig

/-- A byte string of the width of an encoded element. -/
structure Wire where
  family : Family
  form : Form
  bytes : Bytes
  length_bytes : bytes.length = family.width form
  deriving DecidableEq

namespace Wire

/-- The wire value with the given bytes, if they have the right width. -/
def ofBytes (family : Family) (form : Form) (bytes : Bytes) : Except Failure Wire :=
  if h : bytes.length = family.width form then .ok ⟨family, form, bytes, h⟩
  else .error (.wrongWidth (.wire family form) bytes.length)

/-- The wire value of zeros. -/
def zero (family : Family) (form : Form) : Wire :=
  ⟨family, form, Bytes.zeros (family.width form), by simp [Bytes.zeros]⟩

/-- The name of the wire value's family and form. -/
def typeName (w : Wire) : String := w.family.wireName w.form

/-- The printed form: the base 58 text of the bytes. -/
def text (w : Wire) : String := Multibase.encode58 w.bytes

/-- The wire value that the result of reading a multibase text makes. -/
def ofReading (family : Family) (form : Form) :
    Except Multibase.Fault Bytes → Except Failure Wire
  | .error fault => .error (.unreadableText family form fault)
  | .ok bytes =>
    if h : bytes.length = family.width form then .ok ⟨family, form, bytes, h⟩
    else .error (.wrongTextWidth family form bytes.length)

/-- The wire value that a multibase text, given as its own bytes, stands for. -/
def ofText (family : Family) (form : Form) (data : Bytes) : Except Failure Wire :=
  ofReading family form (Multibase.decode data)

theorem ofBytes_bytes (w : Wire) : ofBytes w.family w.form w.bytes = .ok w := by
  simp [ofBytes, w.length_bytes]

end Wire

/-- A decoded element of one of the families. -/
inductive Element (P₁ P₂ : Type)
  | key (p : P₁)
  | signature (p : P₂)
  | proof (p : P₂)

namespace Element

variable {P₁ P₂ : Type}

/-- The family of an element. -/
def family : Element P₁ P₂ → Family
  | key _ => .key
  | signature _ => .signature
  | proof _ => .proof

/-- The element of a family that a point makes. -/
def of : (f : Family) → f.Point P₁ P₂ → Element P₁ P₂
  | .key, p => key p
  | .signature, p => signature p
  | .proof, p => proof p

/-- The point of an element, as one of the given family. -/
def as? : (f : Family) → Element P₁ P₂ → Option (f.Point P₁ P₂)
  | .key, key p => some p
  | .signature, signature p => some p
  | .proof, proof p => some p
  | _, _ => none

/-- The point of an element, of the type that its family has. -/
def point : (e : Element P₁ P₂) → e.family.Point P₁ P₂
  | key p => p
  | signature p => p
  | proof p => p

/-- The name of the element's family. -/
def typeName (e : Element P₁ P₂) : String := e.family.elementName

@[simp] theorem as?_of (f : Family) (p : f.Point P₁ P₂) : (of f p).as? f = some p := by
  cases f <;> rfl

@[simp] theorem family_of (f : Family) (p : f.Point P₁ P₂) : (of f p).family = f := by
  cases f <;> rfl

end Element

end AggSig
