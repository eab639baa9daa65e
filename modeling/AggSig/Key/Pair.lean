/-
  Keypairs in bytes and as documents, and what secret keys sign.

  The 128 bytes of a keypair are those of the secret key and then the affine encoding of the public
  key.  Reading them checks the width, the secret key, the public key and that the two belong
  together, in that order; so no other bytes read as the same keypair.
-/
import AggSig.Value

namespace AggSig.Suite

variable {P₁ P₂ T : Type} (S : Suite P₁ P₂ T)

/-! ## Hashing and signing -/

/-- The point that a message hashes to. -/
def hashMessage (message : Value P₁ P₂) : Except Failure P₂ :=
  S.hash .message <$> S.bytesOf message

/-- The point that a public key hashes to: its compressed encoding is what is hashed. -/
def hashKey (key : P₁) : Except Failure P₂ :=
  S.hash .possession <$> S.group₁.encodeCompressed key

/-- The signature of a message. -/
def sign (secret : SecretKey) (message : Value P₁ P₂) : Except Failure P₂ := do
  return S.group₂.multiply (← S.hashMessage message) secret.scalar

/-- The proof that the secret key of a keypair is known: its public key, signed under the tag of
    proofs. -/
def prove (k : Keypair) : Except Failure P₂ := do
  return S.group₂.multiply (← S.hashKey (S.publicKey k)) k.secret.scalar

/-- The signer that a value is: keys sign with the affine encoding of their signatures, and other values
    do not sign. -/
def signerOf (v : Value P₁ P₂) : SecretKey.Signer := fun message =>
  match v with
  | .secretKey k | .keypair ⟨k, _⟩ =>
    match S.sign k (.ofBytes message) with
    | .ok p => .ok (S.group₂.encodeAffine p)
    | .error failure => .error (failure.message.getD "")
  | v => .error ("'" ++ v.typeName ++ "' object has no attribute 'sign'")

/-! ## Bytes and documents -/

/-- The keypair that a byte string spells. -/
def keypairOfBytes (data : Bytes) : Except Failure Keypair :=
  if data.length ≠ keypairWidth then .error (.wrongWidth .keypair data.length)
  else do
    let secret ← SecretKey.ofBytes (data.take secretKeyWidth)
    let k ← Keypair.ofSecret secret
    let stored ← Wire.ofBytes .key .affine (data.drop secretKeyWidth)
    let p : P₁ ← S.decodeElement .key stored.bytes false
    if S.group₁.same p (S.publicKey k) then .ok k else .error .keysDisagree

/-- The keypair that the bytes of a value spell. -/
def keypairOf (v : Value P₁ P₂) : Except Failure Keypair := do
  S.keypairOfBytes (← S.bytesOfWidth .keypair v)

/-- The secret key that the bytes of a value spell. -/
def secretKeyOf (v : Value P₁ P₂) : Except Failure SecretKey := do
  SecretKey.ofBytes (← S.bytesOfWidth .secretKey v)

/-- The document of a keypair. -/
def document (k : Keypair) : String := Document.render (S.keypairBytes k)

/-- The keypair that a list of bytes spells, or what is wrong with the document it came from. -/
def keypairOfList (result : Except (List Document.Issue) Bytes) : Except Failure Keypair :=
  match result with
  | .ok data => S.keypairOfBytes data
  | .error issues => .error (.badDocument issues)

/-- The keypair that a document spells; the document may be a text or its bytes, but not bytes that are
    borrowed. -/
def keypairOfDocument (v : Value P₁ P₂) : Except Failure Keypair :=
  match v with
  | .text s => S.keypairOfList (Document.readText s.toList)
  | .buffer .borrowed _ => .error (.badDocument [.notText])
  | .buffer _ content => S.keypairOfList (Document.readBytes content)
  | .wire w => S.keypairOfList (Document.readBytes w.bytes)
  | _ => .error (.badDocument [.notText])

/-- The keypair that the content of a stream spells. -/
def keypairOfStream (v : Value P₁ P₂) : Except Failure Keypair :=
  match v with
  | .textStream s => S.keypairOfDocument (.text s)
  | .byteStream content => S.keypairOfDocument (.ofBytes content)
  | _ => .error .unsuitable

end AggSig.Suite
