/-
  The constants that the library publishes, by name.
-/
import AggSig.Key.Pair

namespace AggSig

/-- A group by its name, its identity and the widths of its encodings. -/
inductive PublishedValue (P₁ P₂ : Type)
  | number (n : Nat)
  | bytes (content : Bytes)
  | group (side : Side) (identity : Value P₁ P₂)
  | point (p : Value P₁ P₂)

/-- The published constants of a suite, sorted by name. -/
def Suite.published {P₁ P₂ T : Type} (S : Suite P₁ P₂ T) :
    List (String × PublishedValue P₁ P₂) :=
  [("BLS_KEYPAIR_SIZE", .number keypairWidth),
   ("BLS_PROOF_OF_POSSESSION_AFFINE_SIZE", .number (Family.proof.width .affine)),
   ("BLS_PROOF_OF_POSSESSION_COMPRESSED_SIZE", .number (Family.proof.width .compressed)),
   ("BLS_PUBLIC_KEY_AFFINE_SIZE", .number (Family.key.width .affine)),
   ("BLS_PUBLIC_KEY_COMPRESSED_SIZE", .number (Family.key.width .compressed)),
   ("BLS_SECRET_KEY_SIZE", .number secretKeyWidth),
   ("BLS_SIGNATURE_AFFINE_SIZE", .number (Family.signature.width .affine)),
   ("BLS_SIGNATURE_COMPRESSED_SIZE", .number (Family.signature.width .compressed)),
   ("DERIVE_FROM_SIGNER_PREFIX", .bytes SecretKey.signerPrompt),
   ("G1", .group .g1 (.point₁ S.group₁.identity)),
   ("G1_GENERATOR_NEG", .point (.point₁ S.generatorNeg)),
   ("G2", .group .g2 (.point₂ S.group₂.identity)),
   ("HASH_TO_POINT_DST", .bytes Tag.message.bytes),
   ("POP_DST", .bytes Tag.possession.bytes)]

end AggSig
