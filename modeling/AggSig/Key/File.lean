/-
  Key files: the document of a keypair in a file that only its owner may read.
-/
import AggSig.FileTree
import AggSig.Key.Pair

namespace AggSig.Suite

variable {P₁ P₂ T : Type} (S : Suite P₁ P₂ T)

/-- The permission bits of a key file. -/
def keyFileMode : Nat := 0o600

/-- Writes the document of a keypair to a file and gives it back.  Missing directories above the file
    are made, and an existing file loses its content and its mode. -/
def writeKeyFile (t : FileTree) (path : String) (k : Keypair) : Except Failure String × FileTree :=
  let text := S.document k
  match t.writeBelow path (Bytes.ofAscii text) keyFileMode with
  | (.ok (), t) => (.ok text, t)
  | (.error misuse, t) => (.error (.file misuse), t)

/-- The keypair whose document a file holds. -/
def readKeyFile (t : FileTree) (path : String) : Except Failure Keypair :=
  match t.read path with
  | .ok content => S.keypairOfDocument (.buffer .constant content)
  | .error misuse => .error (.file misuse)

end AggSig.Suite
