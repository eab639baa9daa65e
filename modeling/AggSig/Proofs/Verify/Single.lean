/-
  A signature of one key is valid exactly if it is what the key signs.

  `coreVerify_eq` decides the pairing equation for any member key and points: the key must not be the
  identity, and the signature has to be the hashed point, multiplied by the logarithm of the key.  The
  logarithm of a public key is the secret scalar, and that is how signatures are made, so the answer of
  `verifySignature_publicKey` compares two points.
-/
import AggSig.Proofs.Pairing.Logarithm
import AggSig.Proofs.Verify.Arguments

namespace AggSig.Backend

variable {T : Type}

/-! ## Public keys -/

theorem member_publicKey (B : Backend T) (k : Keypair) : coding₁.Member (B.suite.publicKey k) :=
  reading₁.valid_multiply member_generator k.secret.scalar

/-- A public key is the multiple of the generator by the secret scalar. -/
theorem read_publicKey (B : Backend T) (k : Keypair) :
    reading₁.read (B.suite.publicKey k) = k.secret.scalar • g₁ :=
  reading₁.read_multiply member_generator k.secret.scalar

/-- No public key is the identity. -/
theorem read_publicKey_ne_zero (B : Backend T) (k : Keypair) :
    reading₁.read (B.suite.publicKey k) ≠ 0 := by
  rw [read_publicKey, Ne, nsmul_eq_zero_iff g₁_ne_zero, Nat.mod_eq_of_lt k.secret.lt]
  exact k.ne_zero

/-! ## Messages and signatures -/

/-- A value that can be taken as bytes. -/
def IsMessage (B : Backend T) (m : Value (Point Fq) (Point Fq2)) : Prop :=
  ∃ data, B.suite.bytesOf m = .ok data

/-- The point that a message hashes to; for a value that is no message, the identity. -/
def messagePoint (B : Backend T) (m : Value (Point Fq) (Point Fq2)) : Point Fq2 :=
  match B.suite.bytesOf m with
  | .ok data => B.hash .message data
  | .error _ => Point.infinity

/-- A message is hashed to its point. -/
theorem hashMessage_eq {B : Backend T} {m : Value (Point Fq) (Point Fq2)} (hm : B.IsMessage m) :
    B.suite.hashMessage m = .ok (B.messagePoint m) := by
  obtain ⟨data, hdata⟩ := hm
  rw [Suite.hashMessage, messagePoint, hdata]
  rfl

theorem hashMessages_eq {B : Backend T} {messages : List (Value (Point Fq) (Point Fq2))}
    (hm : ∀ m ∈ messages, B.IsMessage m) :
    messages.mapM B.suite.hashMessage = .ok (messages.map B.messagePoint) :=
  mapM_ok fun m h => hashMessage_eq (hm m h)

/-- What a secret key signs for a message. -/
def signature (B : Backend T) (k : SecretKey) (m : Value (Point Fq) (Point Fq2)) : Point Fq2 :=
  B.suite.group₂.multiply (B.messagePoint m) k.scalar

/-- Every scalar signs every message. -/
theorem sign_eq {B : Backend T} {m : Value (Point Fq) (Point Fq2)} (hm : B.IsMessage m)
    (k : SecretKey) : B.suite.sign k m = .ok (B.signature k m) := by
  rw [Suite.sign, hashMessage_eq hm]
  rfl

namespace Laws

variable [One T] [Mul T] {B : Backend T} {E : Type} [AddCommGroup E] (L : B.Laws E)

include L

/-- The point of a message is in the subgroup. -/
theorem member_messagePoint (m : Value (Point Fq) (Point Fq2)) :
    coding₂.Member (B.messagePoint m) := by
  rw [messagePoint]
  split
  · exact L.member_hash .message _
  · exact member_infinity₂

theorem member_signature (k : SecretKey) (m : Value (Point Fq) (Point Fq2)) :
    coding₂.Member (B.signature k m) :=
  reading₂.valid_multiply (L.member_messagePoint m) k.scalar

/-- A signature is the multiple of the point by the scalar. -/
theorem read_signature (k : SecretKey) (m : Value (Point Fq) (Point Fq2)) :
    reading₂.read (B.signature k m) = k.scalar • reading₂.read (B.messagePoint m) :=
  reading₂.read_multiply (L.member_messagePoint m) k.scalar

/-! ## The pairing equation -/

variable [DecidableEq T]

/-- The check of one key, for any member key and points. -/
theorem coreVerify_eq {key : Point Fq} {h s : Point Fq2} (hkey : coding₁.Member key)
    (hh : coding₂.Member h) (hs : coding₂.Member s) :
    B.suite.coreVerify key h s =
      .ok (decide (reading₁.read key ≠ 0 ∧
        reading₂.read s = log (reading₁.read key) • reading₂.read h)) := by
  have hidentity : B.suite.group₁.isIdentity key = true ↔ reading₁.read key = 0 :=
    reading₁.isIdentity_iff hkey
  rw [Suite.coreVerify]
  by_cases hzero : reading₁.read key = 0
  · -- an identity key is refused before anything is paired
    rw [if_pos (hidentity.mpr hzero)]
    simp [hzero]
  · have hpairs : ∀ p ∈ [(h, key)], coding₂.Member p.1 ∧ coding₁.Member p.2 := by
      intro p hp
      obtain rfl := List.mem_singleton.mp hp
      exact ⟨hh, hkey⟩
    have hcheck := L.pairingCheck_eq hpairs hs
    rw [if_neg (fun h => hzero (hidentity.mp h))]
    simpa [hzero] using hcheck

/-- The check of a signature, for any member key and signature and any message. -/
theorem verifySignature_eq {key : Point Fq} {s : Point Fq2} {m : Value (Point Fq) (Point Fq2)}
    (hkey : coding₁.Member key) (hs : coding₂.Member s) (hm : B.IsMessage m) :
    B.suite.verifySignature key (.element (.signature s)) m =
      .ok (decide (reading₁.read key ≠ 0 ∧
        reading₂.read s = log (reading₁.read key) • reading₂.read (B.messagePoint m))) := by
  rw [← L.coreVerify_eq hkey (L.member_messagePoint m) hs, Suite.verifySignature,
    Suite.coerce_signature, hashMessage_eq hm]
  rfl

/-- Every non-zero secret scalar has a public key, and a member of the second group passes as the
    signature of a message exactly if it stands for what that scalar signs.  The check never fails, and
    the one that starts from the signature gives the same answer; a keypair checks with its public
    key. -/
theorem verifySignature_publicKey (k : Keypair) {m : Value (Point Fq) (Point Fq2)}
    (hm : B.IsMessage m) {s : Point Fq2} (hs : coding₂.Member s) :
    Keypair.ofSecret k.secret = .ok k ∧
    ∃ signed, B.suite.sign k.secret m = .ok signed ∧ coding₂.Member signed ∧
      B.suite.verifySignature (B.suite.publicKey k) (.element (.signature s)) m =
        .ok (decide (reading₂.read s = reading₂.read signed)) ∧
      B.suite.verifyWith s (.element (.key (B.suite.publicKey k))) m =
        .ok (decide (reading₂.read s = reading₂.read signed)) := by
  have hverify : B.suite.verifySignature (B.suite.publicKey k) (.element (.signature s)) m =
      .ok (decide (reading₂.read s = reading₂.read (B.signature k.secret m))) := by
    -- the logarithm of a public key is its secret scalar
    rw [L.verifySignature_eq (B.member_publicKey k) hs hm, L.read_signature,
      log_nsmul_of_eq (B.read_publicKey k)]
    simp [B.read_publicKey_ne_zero k]
  refine ⟨dif_neg k.ne_zero, _, sign_eq hm k.secret, L.member_signature k.secret m, hverify, ?_⟩
  rw [← hverify, Suite.verifyWith, Suite.coerce_key]
  rfl

end Laws

/-- The key three and the generator of the second group, checked with the pairing by logarithms. -/
theorem verifySignature_publicKey_three :
    logBackend.IsMessage (.ofBytes [98, 108, 115]) ∧ coding₂.Member generator₂ ∧
      ∃ signed, logBackend.suite.sign ⟨3, by decide⟩ (.ofBytes [98, 108, 115]) = .ok signed ∧
        logBackend.suite.verifySignature (logBackend.suite.publicKey ⟨⟨3, by decide⟩, by decide⟩)
            (.element (.signature generator₂)) (.ofBytes [98, 108, 115]) =
          .ok (decide (reading₂.read generator₂ = reading₂.read signed)) := by
  have hm : logBackend.IsMessage (.ofBytes [98, 108, 115]) := ⟨[98, 108, 115], rfl⟩
  obtain ⟨-, signed, hsign, -, hverify, -⟩ :=
    logLaws.verifySignature_publicKey ⟨⟨3, by decide⟩, by decide⟩ hm member_generator₂
  exact ⟨hm, member_generator₂, signed, hsign, hverify⟩

end AggSig.Backend
