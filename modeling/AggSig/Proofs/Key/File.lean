/-
  Key files, written and read.

  The document of a keypair is in ASCII, so the bytes of the file are the document's own
  (`ofAscii_document`), and the keypair is read from them.  A key file that has been written is found under
  the normal form of its path, and nothing else has changed but for new directories above it; one that
  could not be written has left everything as it was, but for such directories (`keyFile_exact`).

  The path itself need not lead to the file: a slash at its end is dropped on writing, and on reading a
  directory is looked for (`keyFile_trailingSlash`).
-/
import AggSig.Key.File
import AggSig.Proofs.File.Tree
import AggSig.Proofs.Key.Spelling
import AggSig.Proofs.Text.Multibase

namespace AggSig

/-! ## The bytes of a document -/

/-- The text of a list of numbers is made of digits, commas and brackets. -/
theorem Json.isAscii_renderNumbers (ns : List Nat) : Multibase.IsAscii (renderNumbers ns).toList := by
  -- a comma, or a digit of one of the numbers
  have hitems : Multibase.IsAscii (",".intercalate (ns.map toString)).toList := by
    intro c hc
    by_cases hcomma : c = ','
    · rw [hcomma]
      decide
    · rw [String.toList_intercalate] at hc
      obtain ⟨numeral, hnumeral, hc⟩ := (Path.mem_intercalate_iff hcomma _).mp hc
      rw [List.map_map] at hnumeral
      obtain ⟨n, -, rfl⟩ := List.mem_map.mp hnumeral
      have hdigits : (toString n).toList = Nat.toDigits 10 n := Nat.toList_repr
      have hdigit : c.isDigit = true := by
        rw [Function.comp_apply, hdigits] at hc
        exact Nat.isDigit_of_mem_toDigits (by decide) (by decide) hc
      exact Nat.lt_of_le_of_lt (toNat_of_isDigit hdigit).2 (by decide)
  intro c hc
  rw [renderNumbers, String.toList_append, String.toList_append, List.mem_append, List.mem_append] at hc
  rcases hc with (hc | hc) | hc
  · rw [List.mem_singleton.mp hc]
    decide
  · exact hitems c hc
  · rw [List.mem_singleton.mp hc]
    decide

namespace Suite

variable {P₁ P₂ T : Type} (S : Suite P₁ P₂ T)

/-- A text is read from its own bytes as it is read itself. -/
theorem keypairOfDocument_encode (text : String) :
    S.keypairOfDocument (.ofBytes (Utf8.encode text.toList)) = S.keypairOfDocument (.text text) :=
  congrArg S.keypairOfList (Document.readBytes_encode text.toList)

/-- A document is written as its own bytes. -/
theorem ofAscii_document (k : Keypair) :
    Bytes.ofAscii (S.document k) = Utf8.encode (S.document k).toList :=
  (Multibase.encode_ascii (Json.isAscii_renderNumbers _)).symm

end Suite

/-- A keypair is read from the bytes of its document. -/
theorem Backend.keypairOfDocument_encode_document {T : Type} [One T] [Mul T] (B : Backend T) (k : Keypair) :
    B.suite.keypairOfDocument (.ofBytes (Utf8.encode (B.suite.document k).toList)) = .ok k := by
  rw [B.suite.keypairOfDocument_encode, B.keypairOfDocument_eq_ok_iff, lists_text_iff]
  exact Document.spells_render (B.suite.length_of_keypairOfBytes (B.keypairOfBytes_keypairBytes k))

/-! ## Files -/

/-- A keypair is read from a file that holds its document. -/
theorem readKeyFile_of_entry {t : FileTree} {path : String} {k : Keypair} {mode : Nat}
    (h : t.entry path = .ok (.file (Utf8.encode (bls12381.document k).toList) mode)) :
    bls12381.readKeyFile t path = .ok k := by
  rw [Suite.readKeyFile, FileTree.read_eq_ok_iff.mpr ⟨mode, h⟩, bls12381_eq_suite]
  exact Backend.keypairOfDocument_encode_document _ k

/-- A path that a keypair is read from names a file. -/
theorem namesFile_of_readKeyFile {t : FileTree} {path : String} {k : Keypair}
    (h : bls12381.readKeyFile t path = .ok k) : Path.NamesFile path := by
  rw [Suite.readKeyFile] at h
  split at h
  · next hread => exact FileTree.namesFile_of_read hread
  · cases h

/-- A key file that has been written holds the document of the keypair, and nobody but its owner may read it,
    whatever was there before.  The keypair is read back from it under the normal form of the path, and
    under the path itself exactly if that may lead to a file.  Whether the file is written or not, all else
    is as it was, but for new directories above the file. -/
theorem keyFile_exact (t : FileTree) (path : String) (k : Keypair) :
    (∀ text t', bls12381.writeKeyFile t path k = (.ok text, t') →
      text = bls12381.document k ∧
      t'.entryAt? (FileTree.follow (t.start path) (Path.plainNames path)) =
        some (.file (Utf8.encode text.toList) 0o600) ∧
      t'.entry (Path.normal path) = .ok (.file (Utf8.encode text.toList) 0o600) ∧
      bls12381.readKeyFile t' (Path.normal path) = .ok k ∧
      (bls12381.readKeyFile t' path = .ok k ↔ Path.NamesFile path) ∧
      ∀ l ≠ FileTree.follow (t.start path) (Path.plainNames path),
        FileTree.Kept (FileTree.Above (t.start path) (Path.plainNames path).dropLast) t t' l) ∧
    ∀ failure t', bls12381.writeKeyFile t path k = (.error failure, t') →
      ∀ l, FileTree.Kept (FileTree.Above (t.start path) (Path.plainNames path).dropLast) t t' l := by
  refine ⟨fun text t' h => ?_, fun failure t' h => ?_⟩
  · rw [Suite.writeKeyFile, Suite.ofAscii_document] at h
    split at h
    · next t₁ hwritten =>
      cases h
      obtain ⟨hfile, hnormal, hplain, hkept⟩ := FileTree.writeBelow_spec hwritten
      exact ⟨rfl, hfile, hnormal, readKeyFile_of_entry hnormal,
        ⟨namesFile_of_readKeyFile, fun hpath => readKeyFile_of_entry (hplain hpath)⟩, hkept⟩
    · cases h
  · rw [Suite.writeKeyFile] at h
    split at h
    · cases h
    · next hfail =>
      cases h
      exact (FileTree.grown_of_writeBelow hfail).kept

/-- A tree with a key file that anyone may read and another file, where relative paths start beside both. -/
def FileTree.home : FileTree where
  entries :=
    [(["home"], .directory 0o755), (["home", "key.json"], .file (List.replicate 999 0) 0o644),
      (["home", "other.json"], .file [0x5b, 0x5d] 0o640)]
  working := ["home"]

/-- The file loses its content and its mode, by a path on which a directory is made, and the other file stays
    what it was. -/
theorem keyFile_exact_home :
    ∃ t', bls12381.writeKeyFile .home "new/../key.json" Suite.elevenKeypair =
        (.ok (bls12381.document Suite.elevenKeypair), t') ∧
      t'.entryAt? ["home", "key.json"] =
        some (.file (Utf8.encode (bls12381.document Suite.elevenKeypair).toList) 0o600) ∧
      bls12381.readKeyFile t' "new/../key.json" = .ok Suite.elevenKeypair ∧
      t'.entryAt? ["home", "other.json"] = some (.file [0x5b, 0x5d] 0o640) := by
  -- the directory above is made on the way, and nothing else is touched
  have hwritable (content : Bytes) :
      ∃ t', FileTree.home.writeBelow "new/../key.json" content 0o600 = (.ok (), t') := ⟨_, rfl⟩
  obtain ⟨t', hwritten⟩ := hwritable (Bytes.ofAscii (bls12381.document Suite.elevenKeypair))
  have hwrite : bls12381.writeKeyFile .home "new/../key.json" Suite.elevenKeypair =
      (.ok (bls12381.document Suite.elevenKeypair), t') := by
    rw [Suite.writeKeyFile, Suite.keyFileMode, hwritten]
  obtain ⟨-, hfile, -, -, hread, hkept⟩ :=
    (keyFile_exact .home "new/../key.json" Suite.elevenKeypair).1 _ _ hwrite
  refine ⟨t', hwrite, hfile, hread.mpr ⟨by decide, by decide, by decide⟩, ?_⟩
  rcases hkept ["home", "other.json"] (by decide) with hsame | ⟨hnone, -, -⟩
  · exact hsame
  · cases hnone

/-- A path that ends in a slash is written as the file without the slash and then read as a directory. -/
theorem keyFile_trailingSlash :
    ∃ t', bls12381.writeKeyFile .home "k/" Suite.elevenKeypair =
        (.ok (bls12381.document Suite.elevenKeypair), t') ∧
      bls12381.readKeyFile t' "k/" = .error (.file .notDirectory) := by
  have hwritable (content : Bytes) :
      ∃ t', FileTree.home.writeBelow "k/" content 0o600 = (.ok (), t') ∧
        t'.read "k/" = .error .notDirectory := ⟨_, rfl, rfl⟩
  obtain ⟨t', hwritten, hread⟩ := hwritable (Bytes.ofAscii (bls12381.document Suite.elevenKeypair))
  refine ⟨t', ?_, ?_⟩
  · rw [Suite.writeKeyFile, Suite.keyFileMode, hwritten]
  · rw [Suite.readKeyFile, hread]

end AggSig
