/-
  What the documents of keypairs are read as, and how they are refused.

  A document lists bytes if it is a list of as many integers as a keypair has bytes, each from 0 to 255
  (`Document.bytesOf_eq_ok_iff`).  It is read as a keypair if it lists the bytes of one.  If it lists no
  bytes at all, that is reported as a bad document; and if it lists other bytes, they are refused as bytes
  are, for the first step of reading them that fails (`keypairOfDocument_exact`).

  Bytes are refused with failures of several kinds, and only some of them say that bytes could not be
  read: a secret key that is out of range or zero, and a stored public key that is none, are reported as
  what they are (`keypairOfDocument_zeros`).
-/
import AggSig.Proofs.Key.Pair

namespace AggSig

/-! ## Lists of bytes -/

namespace Document

/-- The item that stands for a byte. -/
def item (b : UInt8) : Json := .integer b.toNat

theorem byteOf_item (b : UInt8) : byteOf (item b) = b := by
  show UInt8.ofNat (b.toNat : Int).toNat = b
  rw [Int.toNat_natCast, UInt8.ofNat_toNat]

theorem issueAt?_item (index : Nat) (b : UInt8) : issueAt? index (item b) = none := by
  have hb : b.toNat < 256 := b.toNat_lt
  rw [item, issueAt?, if_neg (by omega), if_neg (by omega)]

/-- Nothing is wrong with the items that stand for bytes only. -/
theorem eq_item_of_issueAt? {index : Nat} {j : Json} (h : issueAt? index j = none) :
    j = item (byteOf j) := by
  cases j with
  | integer n =>
    rw [issueAt?] at h
    split at h
    · cases h
    · split at h
      · cases h
      · have hn : n.toNat < 256 := by omega
        rw [byteOf, item, UInt8.toNat_ofNat_of_lt' hn, Int.toNat_of_nonneg (by omega)]
  | list items => cases h
  | other => cases h

/-- Items for bytes raise no issue. -/
theorem issuesFrom_items (index : Nat) (data : Bytes) : issuesFrom index (data.map item) = [] := by
  induction data generalizing index with
  | nil => rfl
  | cons b rest ih =>
    rw [List.map_cons, issuesFrom, issueAt?_item, ih]
    rfl

/-- A list without issues consists of items for bytes. -/
theorem eq_items_of_issuesFrom {index : Nat} {items : List Json} (h : issuesFrom index items = []) :
    items = (items.map byteOf).map item := by
  induction items generalizing index with
  | nil => rfl
  | cons j rest ih =>
    obtain ⟨hfirst, hrest⟩ := List.append_eq_nil_iff.mp h
    rw [List.map_cons, List.map_cons, ← ih hrest,
      ← eq_item_of_issueAt? (Option.toList_eq_nil_iff.mp hfirst)]

/-- The documents that list bytes. -/
theorem bytesOf_eq_ok_iff {document : Json} {data : Bytes} :
    bytesOf document = .ok data ↔
      document = .list (data.map item) ∧ data.length = keypairWidth := by
  constructor
  · intro h
    -- too many, an issue, too few: the order in which the reader looks at a list
    cases document with
    | list items =>
      rw [bytesOf] at h
      split at h
      · cases h
      · next hlong =>
        split at h
        · next hissues =>
          split at h
          · cases h
          · next hshort =>
            cases h
            refine ⟨congrArg Json.list (eq_items_of_issuesFrom hissues), ?_⟩
            rw [List.length_map]
            omega
        · cases h
    | integer n => cases h
    | other => cases h
  · rintro ⟨rfl, hlength⟩
    have hitems : (data.map item).length = keypairWidth := by rw [List.length_map, hlength]
    have hbytes : (data.map item).map byteOf = data := by
      rw [List.map_map]
      exact (List.map_congr_left fun b _ => byteOf_item b).trans (List.map_id data)
    rw [bytesOf, if_neg (by omega), issuesFrom_items]
    show (if _ then _ else _) = _
    rw [if_neg (by omega), hbytes]

/-- A text is read if it is a list of items for bytes, as many as a keypair has. -/
theorem readText_eq_ok_iff {text : List Char} {data : Bytes} :
    readText text = .ok data ↔
      Json.parse? text = some (.list (data.map item)) ∧ data.length = keypairWidth := by
  rw [readText]
  cases Json.parse? text with
  | none => exact ⟨fun h => (nomatch h), fun h => (nomatch h.1)⟩
  | some document => exact bytesOf_eq_ok_iff.trans (and_congr_left' (Option.some.injEq ..).symm.to_iff)

end Document

namespace Value

variable {P₁ P₂ : Type}

/-- The text of a document, which may be given as its own bytes. -/
def documentText? : Value P₁ P₂ → Option (List Char)
  | .text s => some s.toList
  | .buffer .borrowed _ => none
  | .buffer _ content => (Utf8.decode content).toOption
  | .wire w => (Utf8.decode w.bytes).toOption
  | _ => none

/-- The value is a document that lists the bytes, as many as a keypair has. -/
def Lists (v : Value P₁ P₂) (data : Bytes) : Prop :=
  ∃ text, v.documentText? = some text ∧ Json.parse? text = some (.list (data.map Document.item)) ∧
    data.length = keypairWidth

end Value

/-! ## Keypairs -/

namespace Suite

variable {P₁ P₂ T : Type} (S : Suite P₁ P₂ T) {v : Value P₁ P₂}

/-- A document that has a text is read as that, and any other is a bad one. -/
theorem keypairOfDocument_eq (v : Value P₁ P₂) :
    (∃ text, v.documentText? = some text ∧
      S.keypairOfDocument v = S.keypairOfList (Document.readText text)) ∨
    v.documentText? = none ∧ ∃ issues, S.keypairOfDocument v = .error (.badDocument issues) := by
  -- bytes are decoded first, and if that fails there is no text
  have hbytes : ∀ content : Bytes,
      (∃ text, (Utf8.decode content).toOption = some text ∧
        S.keypairOfList (Document.readBytes content) = S.keypairOfList (Document.readText text)) ∨
      (Utf8.decode content).toOption = none ∧
        ∃ issues, S.keypairOfList (Document.readBytes content) = .error (.badDocument issues) := by
    intro content
    rw [Document.readBytes]
    cases Utf8.decode content with
    | ok text => exact .inl ⟨text, rfl, rfl⟩
    | error fault => exact .inr ⟨rfl, _, rfl⟩
  cases v with
  | text s => exact .inl ⟨s.toList, rfl, rfl⟩
  | buffer kind content =>
    cases kind with
    | borrowed => exact .inr ⟨rfl, _, rfl⟩
    | constant => exact hbytes content
    | changeable => exact hbytes content
  | wire w => exact hbytes w.bytes
  | _ => exact .inr ⟨rfl, _, rfl⟩

/-- A document that lists bytes is read as those are. -/
theorem keypairOfDocument_of_lists {v : Value P₁ P₂} {data : Bytes} (h : v.Lists data) :
    S.keypairOfDocument v = S.keypairOfBytes data := by
  obtain ⟨text, htext, hlists⟩ := h
  rcases S.keypairOfDocument_eq v with ⟨text', htext', hread⟩ | ⟨hnone, -⟩
  · obtain rfl : text' = text := Option.some.inj (htext'.symm.trans htext)
    rw [hread, Document.readText_eq_ok_iff.mpr hlists]
    rfl
  · cases hnone.symm.trans htext

/-- Any other is a bad document. -/
theorem keypairOfDocument_of_not_lists {v : Value P₁ P₂} (h : ∀ data, ¬ v.Lists data) :
    ∃ issues, S.keypairOfDocument v = .error (.badDocument issues) := by
  rcases S.keypairOfDocument_eq v with ⟨text, htext, hread⟩ | ⟨-, hbad⟩
  · cases hresult : Document.readText text with
    | ok data => exact absurd ⟨text, htext, Document.readText_eq_ok_iff.mp hresult⟩ (h data)
    | error issues =>
      rw [hread, hresult]
      exact ⟨issues, rfl⟩
  · exact hbad

end Suite

/-- The documents that a keypair is read from. -/
theorem Backend.keypairOfDocument_eq_ok_iff {T : Type} (B : Backend T) {v : Value (Point Fq) (Point Fq2)}
    {k : Keypair} :
    B.suite.keypairOfDocument v = .ok k ↔ v.Lists (B.suite.keypairBytes k) := by
  constructor
  · intro h
    by_cases hlists : ∃ data, v.Lists data
    · obtain ⟨data, hdata⟩ := hlists
      rw [Suite.keypairOfDocument_of_lists _ hdata, B.keypairOfBytes_eq_ok_iff] at h
      rwa [← h]
    · obtain ⟨issues, hbad⟩ := Suite.keypairOfDocument_of_not_lists _ (not_exists.mp hlists)
      cases hbad.symm.trans h
  · intro h
    rw [Suite.keypairOfDocument_of_lists _ h, B.keypairOfBytes_eq_ok_iff]

/-- Refused bytes of the right width are reported as such only if they are a secret key and a public key
    that is not its own. -/
theorem KeypairRefusal.isError_parseFromBytes_iff {data : Bytes} {failure : Failure}
    (h : KeypairRefusal data failure) (hlength : data.length = keypairWidth) :
    failure.isError .parseFromBytes = true ↔
      0 < spelledScalar data ∧ spelledScalar data < groupOrder ∧ SpellsKey (storedKey data) := by
  -- only a stored key that is not the derived one is an error of this kind
  cases h with
  | width hne _ => exact absurd hlength hne
  | scalarTooLarge _ hge hcategory =>
    rw [Failure.isError, hcategory]
    exact iff_of_false (by decide) fun h => absurd h.2.1 (Nat.not_lt.mpr hge)
  | scalarZero _ hzero hcategory =>
    rw [Failure.isError, hcategory]
    exact iff_of_false (by decide) fun h => absurd h.1 (Nat.not_lt.mpr hzero.le)
  | noKey _ _ _ hkey hpoint =>
    have hother : failure.isError .parseFromBytes = false :=
      hpoint.isError_eq_false fun k => by cases k <;> decide
    exact iff_of_false (ne_true_of_eq_false hother) fun h => hkey h.2.2
  | otherKey _ hpos hlt hspells _ hcategory =>
    rw [Failure.isError, hcategory]
    exact iff_of_true (by decide) ⟨hpos, hlt, hspells⟩

/-! ## The suite that runs -/

/-- A document is read as a keypair exactly if it lists the bytes of the keypair.  One that lists no bytes
    is reported as bad, and one that lists other bytes is refused for the first step of reading them that
    fails.  Its failure says that bytes could not be read only if the first half is a secret key and the
    other half is a public key. -/
theorem keypairOfDocument_exact (v : Value (Point Fq) (Point Fq2)) :
    (∀ k, bls12381.keypairOfDocument v = .ok k ↔ v.Lists (bls12381.keypairBytes k)) ∧
    ((∀ data, ¬ v.Lists data) → ∃ failure, bls12381.keypairOfDocument v = .error failure ∧
      failure.isError .parseFromBytes = true) ∧
    ∀ data, v.Lists data → ∀ failure, bls12381.keypairOfDocument v = .error failure →
      KeypairRefusal data failure ∧
      (failure.isError .parseFromBytes = true ↔
        0 < spelledScalar data ∧ spelledScalar data < groupOrder ∧ SpellsKey (storedKey data)) := by
  rw [bls12381_eq_suite]
  refine ⟨fun k => Backend.keypairOfDocument_eq_ok_iff _, fun h => ?_, fun data hdata failure h => ?_⟩
  · obtain ⟨issues, hbad⟩ := Suite.keypairOfDocument_of_not_lists _ h
    exact ⟨_, hbad, rfl⟩
  · rw [Suite.keypairOfDocument_of_lists _ hdata] at h
    have hrefusal := Backend.keypairRefusal _ h
    obtain ⟨-, -, -, hlength⟩ := hdata
    exact ⟨hrefusal, hrefusal.isError_parseFromBytes_iff hlength⟩

/-- The document that lists as many zeros as a keypair has bytes. -/
def zerosText : List Char := "[0".toList ++ (List.replicate 127 [',', '0']).flatten ++ [']']

/-- The text of zeros lists 128 of them. -/
theorem lists_zerosText :
    (Value.text (String.ofList zerosText) : Value (Point Fq) (Point Fq2)).Lists (Bytes.zeros 128) := by
  have hread : Document.readText zerosText = .ok (Bytes.zeros 128) := by decide +kernel
  refine ⟨zerosText, ?_, Document.readText_eq_ok_iff.mp hread⟩
  show some (String.ofList zerosText).toList = some zerosText
  rw [String.toList_ofList]

/-- They are refused for their scalar. -/
theorem keypairOfDocument_zerosText :
    bls12381.keypairOfDocument (.text (String.ofList zerosText)) = .error .secretZero := by
  rw [bls12381_eq_suite, Suite.keypairOfDocument_of_lists _ lists_zerosText]
  exact Backend.keypairOfBytes_of_zero _ (Bytes.length_zeros 128) (by decide +kernel)

/-- Zeros are refused for their secret key, and braces list nothing. -/
theorem keypairOfDocument_exact_zeros :
    (Value.text (String.ofList zerosText) : Value (Point Fq) (Point Fq2)).Lists (Bytes.zeros 128) ∧
    bls12381.keypairOfDocument (.text (String.ofList zerosText)) = .error .secretZero ∧
    KeypairRefusal (Bytes.zeros 128) .secretZero ∧
    (∀ data, ¬ (Value.ofBytes [0x7b, 0x7d] : Value (Point Fq) (Point Fq2)).Lists data) ∧
    ∃ failure, bls12381.keypairOfDocument (.ofBytes [0x7b, 0x7d]) = .error failure ∧
      failure.isError .parseFromBytes = true := by
  have hbraces : ∀ data, ¬ (Value.ofBytes [0x7b, 0x7d] : Value (Point Fq) (Point Fq2)).Lists data := by
    rintro data ⟨text, htext, hparse, -⟩
    obtain rfl : ['\x7b', '\x7d'] = text := Option.some.inj htext
    cases hparse
  exact ⟨lists_zerosText, keypairOfDocument_zerosText,
    ((keypairOfDocument_exact _).2.2 _ lists_zerosText _ keypairOfDocument_zerosText).1, hbraces,
    (keypairOfDocument_exact _).2.1 hbraces⟩

/-- Not every document that is refused is refused as bytes that could not be read: zeros are a secret key
    that is zero. -/
theorem keypairOfDocument_zeros :
    ¬ ∀ (text : String) (failure : Failure), bls12381.keypairOfDocument (.text text) = .error failure →
      failure.isError .parseFromBytes = true := by
  intro h
  exact absurd (h _ _ keypairOfDocument_zerosText) (by decide)

end AggSig
