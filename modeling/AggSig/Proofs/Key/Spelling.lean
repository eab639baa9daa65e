/-
  The texts that keypairs are read from.

  A text spells bytes if it is a list of integers, and these are the bytes of a keypair's width
  (`Document.Spells`).  The reader takes exactly those texts (`Document.lists_text_iff`), and it takes a text
  and its own bytes alike (`Document.readBytes_encode`).  So a keypair is read from the texts that spell its bytes and no
  others, and the text that it is written as is one of them (`keypairOfDocument_text_exact`).
-/
import AggSig.Proofs.Key.Document
import AggSig.Proofs.Text.Json
import AggSig.Proofs.Text.Utf8

namespace AggSig

namespace Document

/-- The text is a list of integers that are the bytes, as many as a keypair has. -/
def Spells (text : List Char) (data : Bytes) : Prop :=
  data.length = keypairWidth ∧ Json.SpellsList (data.map fun b => (b.toNat : Int)) text

/-- A byte has few digits. -/
theorem natAbs_lt_of_mem_bytes {data : Bytes} {n : Int} (h : n ∈ data.map fun b => (b.toNat : Int)) :
    n.natAbs < 10 ^ Json.digitLimit := by
  obtain ⟨b, -, rfl⟩ := List.mem_map.mp h
  have hb : b.toNat < 10 ^ 3 := Nat.lt_trans b.toNat_lt (by decide)
  exact Nat.lt_of_lt_of_le hb (Nat.pow_le_pow_right (by decide) (by decide))

/-- Bytes are spelled by the document that lists them. -/
theorem spells_render {data : Bytes} (h : data.length = keypairWidth) :
    Spells (render data).toList data := by
  have hspells := Json.spellsList_renderNumbers (data.map UInt8.toNat)
  rw [List.map_map] at hspells
  exact ⟨h, hspells⟩

/-- A text is read from its own bytes as it is read itself. -/
theorem readBytes_encode (text : List Char) : readBytes (Utf8.encode text) = readText text := by
  rw [readBytes, Utf8.decode_encode]

end Document

/-- The texts that list bytes are those that spell them. -/
theorem lists_text_iff {P₁ P₂ : Type} {text : String} {data : Bytes} :
    (Value.text text : Value P₁ P₂).Lists data ↔ Document.Spells text.toList data := by
  have hitems : data.map Document.item = (data.map fun b => (b.toNat : Int)).map .integer := by
    rw [List.map_map]
    rfl
  rw [Document.Spells, ← Json.parse?_eq_list_iff fun _ => Document.natAbs_lt_of_mem_bytes, ← hitems]
  constructor
  · rintro ⟨_, htext, hparse, hlength⟩
    cases htext
    exact ⟨hlength, hparse⟩
  · rintro ⟨hlength, hparse⟩
    exact ⟨_, rfl, hparse, hlength⟩

/-! ## Keypairs -/

/-- A keypair is read from bytes of its width only. -/
theorem Suite.length_of_keypairOfBytes {P₁ P₂ T : Type} (S : Suite P₁ P₂ T) {data : Bytes} {k : Keypair}
    (h : S.keypairOfBytes data = .ok k) : data.length = keypairWidth := by
  by_contra hlength
  rw [Suite.keypairOfBytes, if_pos hlength] at h
  cases h

/-- A keypair is read from a text exactly if the text spells its bytes: between white space, a list of
    integers without fractions, exponents or needless zeros, which are the bytes.  The bytes of the text
    are read as the text is, and every keypair is read from the text that it is written as. -/
theorem keypairOfDocument_text_exact :
    (∀ text : String,
      (∀ k, bls12381.keypairOfDocument (.text text) = .ok k ↔
        Document.Spells text.toList (bls12381.keypairBytes k)) ∧
      bls12381.keypairOfDocument (.ofBytes (Utf8.encode text.toList)) =
        bls12381.keypairOfDocument (.text text)) ∧
    ∀ k, bls12381.keypairOfDocument (.text (bls12381.document k)) = .ok k := by
  rw [bls12381_eq_suite]
  refine ⟨fun text => ⟨fun k => (Backend.keypairOfDocument_eq_ok_iff _).trans lists_text_iff, ?_⟩,
    fun k => (Backend.keypairOfDocument_eq_ok_iff _).mpr (lists_text_iff.mpr ?_)⟩
  · exact congrArg (Suite.keypairOfList _) (Document.readBytes_encode text.toList)
  · exact Document.spells_render
      (Suite.length_of_keypairOfBytes _ (Backend.keypairOfBytes_keypairBytes _ k))

end AggSig
