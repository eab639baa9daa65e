/-
  The JSON form of a keypair: a list of its 128 bytes.

  `bytesOf` accepts a document exactly when it is a list of 128 integers from 0 to 255; otherwise it
  lists what is wrong with it.  Too many items hide every other complaint, and too few are reported
  only if each item is a byte.
-/
import AggSig.Bytes
import AggSig.Text.Json
import AggSig.Text.Utf8

namespace AggSig

/-- The width of a keypair in bytes. -/
def keypairWidth : Nat := 128

namespace Document

/-- What is wrong with a document, and at which item where it is about one. -/
inductive Issue
  | invalid
  | notText
  | notList
  | tooShort
  | tooLong
  | notInteger (index : Nat)
  | belowZero (index : Nat)
  | aboveByte (index : Nat)
  deriving DecidableEq

/-- The name of the complaint. -/
def Issue.name : Issue → String
  | .invalid => "json_invalid"
  | .notText => "json_type"
  | .notList => "list_type"
  | .tooShort => "too_short"
  | .tooLong => "too_long"
  | .notInteger _ => "int_type"
  | .belowZero _ => "greater_than_equal"
  | .aboveByte _ => "less_than_equal"

/-- The item that the complaint is about. -/
def Issue.index? : Issue → Option Nat
  | .notInteger i | .belowZero i | .aboveByte i => some i
  | _ => none

/-- What is wrong with an item as a byte. -/
def issueAt? (index : Nat) : Json → Option Issue
  | .integer n =>
    if n < 0 then some (.belowZero index) else if 255 < n then some (.aboveByte index) else none
  | _ => some (.notInteger index)

/-- The complaints about the items, the first of which has the given index. -/
def issuesFrom (index : Nat) : List Json → List Issue
  | [] => []
  | item :: items => (issueAt? index item).toList ++ issuesFrom (index + 1) items

/-- The byte that an item stands for, once nothing is wrong with it. -/
def byteOf : Json → UInt8
  | .integer n => UInt8.ofNat n.toNat
  | _ => 0

/-- The bytes that a document lists, or what is wrong with it. -/
def bytesOf : Json → Except (List Issue) Bytes
  | .list items =>
    if items.length > keypairWidth then .error [.tooLong]
    else
      match issuesFrom 0 items with
      | [] => if items.length < keypairWidth then .error [.tooShort] else .ok (items.map byteOf)
      | issues => .error issues
  | _ => .error [.notList]

/-- The bytes that a text lists, or what is wrong with it. -/
def readText (text : List Char) : Except (List Issue) Bytes :=
  match Json.parse? text with
  | some document => bytesOf document
  | none => .error [.invalid]

/-- The bytes that a text, given as its own bytes, lists, or what is wrong with it. -/
def readBytes (data : Bytes) : Except (List Issue) Bytes :=
  match Utf8.decode data with
  | .ok text => readText text
  | .error _ => .error [.invalid]

/-- The document that lists the bytes. -/
def render (data : Bytes) : String := Json.renderNumbers (data.map UInt8.toNat)

end Document

end AggSig
