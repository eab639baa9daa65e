/-
  Secret keys: numbers below the group order.

  A secret key is written as thirty-two bytes, most significant first.  It comes from a number, from
  such bytes, from a random source, from keying material, or from what an external signer signs.

  Keying material is turned into a key in rounds.  Each round extracts a fixed-size secret from it
  under a salt that is hashed once more every time, expands that to forty-eight bytes, and takes them
  modulo the group order; the first result that is not zero is the key.
-/
import AggSig.Curve.Parameters
import AggSig.Failure
import AggSig.Hash.Hmac

namespace AggSig

/-- A number below the group order. -/
structure SecretKey where
  scalar : Nat
  lt : scalar < groupOrder
  deriving DecidableEq

/-- A source of random numbers: those still to come, and the bounds asked for so far. -/
structure RandomSource where
  pending : List Nat
  bounds : List Nat

/-- A computation that draws random numbers. -/
abbrev Drawing (α : Type) := RandomSource → α × RandomSource

namespace RandomSource

/-- The next number, which is asked for below a bound. -/
def below (bound : Nat) : Drawing Nat := fun source =>
  (source.pending.headD 0, ⟨source.pending.tail, source.bounds ++ [bound]⟩)

/-- As many further numbers as asked for, each below a bound. -/
def several (bound : Nat) : (count : Nat) → Drawing (List Nat)
  | 0, source => ([], source)
  | count + 1, source =>
    let (n, source) := below bound source
    let (ns, source) := several bound count source
    (n :: ns, source)

/-- Numbers come in the order in which they are pending, with zeros after the last one, and every one is
    asked for below the bound. -/
theorem several_eq (bound count : Nat) (source : RandomSource) :
    several bound count source =
      (source.pending.take count ++ List.replicate (count - source.pending.length) 0,
        ⟨source.pending.drop count, source.bounds ++ List.replicate count bound⟩) := by
  induction count generalizing source with
  | zero => simp [several]
  | succ count ih =>
    rw [several, below]
    simp only [ih]
    cases source.pending with
    | nil => simp [List.replicate_succ]
    | cons n rest => simp [List.replicate_succ]

end RandomSource

namespace SecretKey

/-- The key that a number is. -/
def ofInt (n : Int) : Except Failure SecretKey :=
  if h : 0 ≤ n ∧ n.toNat < groupOrder then .ok ⟨n.toNat, h.2⟩ else .error .secretOutOfRange

/-- The key that thirty-two bytes spell. -/
def ofBytes (data : Bytes) : Except Failure SecretKey :=
  if data.length ≠ secretKeyWidth then .error (.wrongWidth .secretKey data.length)
  else ofInt (Bytes.toNat data)

/-- The bytes of a key. -/
def toBytes (k : SecretKey) : Bytes := Bytes.ofNat secretKeyWidth k.scalar

/-- A key drawn from the non-zero ones. -/
def random : Drawing (Except Failure SecretKey) := fun source =>
  let (n, source) := RandomSource.below (groupOrder - 1) source
  (ofInt (n + 1), source)

/-! ## From keying material -/

/-- The salt before the first round. -/
def salt : Bytes := Bytes.ofAscii "BLS-SIG-KEYGEN-SALT-"

/-- The number that one round gives under a salt. -/
def roundScalar (material salt : Bytes) : Nat :=
  let extracted := Sha256.hmac salt (material ++ [0])
  Bytes.toNat (Sha256.expand extracted [0, 48] 48) % groupOrder

/-- One round: the number that it gives, or, if that is zero, the salt that the next round starts from. -/
def tryRound (material salt : Bytes) : Bytes ⊕ Nat :=
  let salt := Sha256.digest salt
  let scalar := roundScalar material salt
  if scalar = 0 then .inl salt else .inr scalar

/-- The number of the first round that gives one.  A round fails with a chance of about `2 ^ -255`, and
    there is no bound on how many are tried. -/
def firstScalar (material salt : Bytes) : Nat :=
  Id.run (repeatM (fun salt => pure (tryRound material salt)) salt)

/-- The least width of keying material. -/
def leastMaterial : Nat := 32

/-- The key that keying material gives. -/
def derive (material : Bytes) : Except Failure SecretKey :=
  if material.length < leastMaterial then .error (.shortKeyMaterial material.length)
  else ofInt (firstScalar material salt)

/-! ## From an external signer -/

/-- An external signer: it signs a message or fails for a reason. -/
abbrev Signer := Bytes → Except String Bytes

/-- What the message to an external signer starts with. -/
def signerPrompt : Bytes := Bytes.ofAscii "bls-key-derive-"

/-- The message that an external signer is asked to sign for a seed. -/
def signerMessage (seed : Bytes) : Bytes := signerPrompt ++ seed

/-- The key that an external signer's answer gives. -/
def ofSignature : Except String Bytes → Except Failure SecretKey
  | .error reason => .error (.signerFailed reason)
  | .ok signature =>
    if signature.all (· = 0) then .error .signerEmpty else derive signature

/-- What a signer answers to a message, which it keeps after those that it was asked to sign before. -/
def Signer.ask (signer : Signer) (message : Bytes) (asked : List Bytes) :
    Except String Bytes × List Bytes :=
  (signer message, asked ++ [message])

/-- The key derived from what the signer signs for a seed, and the messages it was asked to sign. -/
def deriveFromSigner (signer : Signer) (seed : Bytes) : Except Failure SecretKey × List Bytes :=
  let (answer, asked) := signer.ask (signerMessage seed) []
  (ofSignature answer, asked)

/-! ## What the conversions keep -/

theorem ofInt_scalar (k : SecretKey) : ofInt k.scalar = .ok k := by
  simp [ofInt, k.lt]

@[simp] theorem length_toBytes (k : SecretKey) : k.toBytes.length = secretKeyWidth := by
  simp [toBytes]

/-- What is written is read back. -/
theorem ofBytes_toBytes (k : SecretKey) : ofBytes k.toBytes = .ok k := by
  have h : k.scalar < Nat.pow 256 secretKeyWidth :=
    Nat.lt_trans k.lt (by decide)
  rw [ofBytes, if_neg (by simp), toBytes, Bytes.toNat_ofNat _ _ h, ofInt_scalar]

end SecretKey

/-- A secret key that is not zero, and so has a public key. -/
structure Keypair where
  secret : SecretKey
  ne_zero : secret.scalar ≠ 0
  deriving DecidableEq

/-- The keypair of a secret key. -/
def Keypair.ofSecret (secret : SecretKey) : Except Failure Keypair :=
  if h : secret.scalar = 0 then .error .secretZero else .ok ⟨secret, h⟩

end AggSig
