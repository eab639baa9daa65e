/-
  Domain separation tags, and the uniform bytes expanded from a message under one of them.

  Messages and public keys are hashed under different tags, so that a signature over the bytes of a
  key is no proof of possession of it, and the other way round.  Callers never choose a tag freely.
-/
import AggSig.Hash.Sha256

namespace AggSig

/-- What a hashed byte string stands for. -/
inductive Tag
  | message
  | possession
  deriving DecidableEq

/-- The bytes of a tag. -/
def Tag.bytes : Tag → Bytes
  | .message => Bytes.ofAscii "BLS_SIG_BLS12381G2_XMD:SHA-256_SSWU_RO_NUL_"
  | .possession => Bytes.ofAscii "BLS_SIG_BLS12381G1_XMD:SHA-256_SSWU_RO_POP_"

namespace Expansion

/-- The tag followed by its length. -/
def suffix (tag : Bytes) : Bytes := tag ++ Bytes.ofNat 1 tag.length

/-- `count` further digests, the first one with the given counter, each over the one before it
    combined with the digest of the message. -/
def blocks (first : Bytes) (tag : Bytes) : (count counter : Nat) → (last : Bytes) → Bytes
  | 0, _, _ => []
  | count + 1, counter, last =>
    let mixed := List.zipWith (· ^^^ ·) first last
    let next := Sha256.digest (mixed ++ Bytes.ofNat 1 counter ++ suffix tag)
    next ++ blocks first tag count (counter + 1) next

/-- `width` uniform bytes from a message under a tag. -/
def expand (message tag : Bytes) (width : Nat) : Bytes :=
  let first := Sha256.digest
    (Bytes.zeros 64 ++ message ++ Bytes.ofNat 2 width ++ [0] ++ suffix tag)
  (blocks first tag ((width + 31) / 32) 1 (Bytes.zeros 32)).take width

end Expansion

end AggSig
