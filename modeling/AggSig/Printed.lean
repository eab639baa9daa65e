/-
  Values in print, and wire values read from print.

  A wire value prints as its base 58 text and a text as itself.  Everything else prints as its
  description, which names the type and shows an element by the text of its compressed form.  A secret
  key is never shown.  Lists and pairs show the descriptions of their members.

  A wire value is read from any value: one that is no byte string is read from its print.
-/
import AggSig.Number.Shortest
import AggSig.Value

namespace AggSig.Suite

variable {P₁ P₂ T : Type} (S : Suite P₁ P₂ T)

/-! ## Descriptions -/

/-- A type name with a quoted text. -/
def named (typeName text : String) : String := typeName ++ "('" ++ text ++ "')"

/-- Texts in round brackets. -/
def bracketed (texts : List String) : String := "(" ++ ", ".intercalate texts ++ ")"

/-- The description of an element. -/
def describeElement (e : Element P₁ P₂) : Except Failure String := do
  return named e.typeName (← S.toCompressed e).text

/-- The description of a keypair shows its public key alone. -/
def describeKeypair (k : Keypair) : Except Failure String := do
  return "Keypair(public=" ++ (← S.describeElement (.key (S.publicKey k))) ++ ")"

/-- The description of a point lists its coordinates. -/
def describePoint {P : Type} (G : Group P) (p : P) : String :=
  bracketed ((G.coordinates p).map Coordinate.text)

mutual

/-- The description of a value.  What is known by its place in memory only has none. -/
def describe (v : Value P₁ P₂) : Except Failure String :=
  match v with
  | .wire w => .ok (named w.typeName w.text)
  | .element e => S.describeElement e
  | .secretKey _ => .ok "SecretKey(<redacted>)"
  | .keypair k => S.describeKeypair k
  | .absent => .ok "None"
  | .truth b => .ok (if b then "True" else "False")
  | .integer n => .ok (toString n)
  | .fraction x => .ok x.text
  | .text s => .ok (Quoted.ofText s.toList)
  | .buffer .constant content => .ok (Quoted.ofBytes content)
  | .buffer .changeable content => .ok (Quoted.ofBuffer content)
  | .list items => do return "[" ++ ", ".intercalate (← describeAll items) ++ "]"
  | .pair first second => do return bracketed [← describe first, ← describe second]
  | .point₁ p => .ok (describePoint S.group₁ p)
  | .point₂ p => .ok (describePoint S.group₂ p)
  | .coordinate c => .ok c.text
  | .buffer .borrowed _ | .textStream _ | .byteStream _ => .error .inconvertible

/-- The descriptions of the members of a list. -/
def describeAll : List (Value P₁ P₂) → Except Failure (List String)
  | [] => .ok []
  | v :: vs => do return (← describe v) :: (← describeAll vs)

end

/-- A value in print. -/
def print (v : Value P₁ P₂) : Except Failure String :=
  match v with
  | .wire w => .ok w.text
  | .text s => .ok s
  | v => S.describe v

/-! ## Reading -/

/-- The wire value that the text of a value stands for.  A wire value shows as its print where its
    bytes start like no encoding. -/
def readWire (f : Family) (form : Form) (v : Value P₁ P₂) : Except Failure Wire :=
  match v with
  | .text s => Wire.ofText f form (Utf8.encode s.toList)
  | .buffer .constant content => Wire.ofText f form content
  | .wire w => Wire.ofReading f form (Multibase.decodeShown w.text w.bytes)
  | v =>
    match S.print v with
    | .ok s => Wire.ofText f form (Utf8.encode s.toList)
    | .error failure =>
      match failure.message with
      | some reason => .error (.unreadableText f form (.unprintable reason))
      | none => .error failure

/-! ## Attributes -/

/-- Sets an attribute of a value.  Keys and elements refuse that in so many words; wire values and
    streams do not mind; other values have no attributes to set. -/
def setAttribute (v : Value P₁ P₂) : Except Failure Unit :=
  match v with
  | .element _ | .secretKey _ | .keypair _ => .error (.immutableValue v.typeName)
  | .wire _ | .textStream _ | .byteStream _ | .coordinate _ => .ok ()
  | _ => .error .unsuitable

end AggSig.Suite
