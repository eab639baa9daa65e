/-
  A proof of possession is valid exactly if it is what the secret key makes, and proofs and signatures
  are kept apart by the tag that they are hashed under.

  The proof is made for the encoding of the public key as it was computed, and is checked for the
  encoding of the key as it was handed in.  Both are one encoding, whatever triple the key comes as, so
  the key hashes to one point (`exists_hashKey`).

  A secret scalar is prime to the group order, so that nothing is lost when an element is multiplied by
  it (`scalar_nsmul_inj`).  A proof that is taken for a signature of the encoded key, or the other way
  round, therefore passes exactly if the encoding hashes to one element under both tags.
-/
import AggSig.Proofs.Element.Alike
import AggSig.Proofs.Verify.Batch

namespace AggSig.Backend

/-- Multiplying by a secret scalar loses nothing. -/
theorem scalar_nsmul_inj (k : Keypair) {a b : G₂} :
    k.secret.scalar • a = k.secret.scalar • b ↔ a = b := by
  constructor
  · intro h
    by_contra hne
    -- the scalar would kill the difference, but the group order does not divide the scalar
    have hzero : k.secret.scalar • (a - b) = 0 := by rw [nsmul_sub, h, sub_self]
    rw [nsmul_eq_zero_iff (sub_ne_zero.mpr hne), Nat.mod_eq_of_lt k.secret.lt] at hzero
    exact k.ne_zero hzero
  · rintro rfl
    rfl

variable {T : Type}

/-- Triples of one key are written in one compressed form, and hash to the same point. -/
theorem exists_hashKey (B : Backend T) {p r : Point Fq} (h : reading₁.Coincide p r) :
    ∃ w : Wire, B.suite.toCompressed (.key p) = .ok w ∧ B.suite.toCompressed (.key r) = .ok w ∧
      B.suite.hashKey p = .ok (B.hash .possession w.bytes) ∧
      B.suite.hashKey r = .ok (B.hash .possession w.bytes) := by
  obtain ⟨data, hp, hr, hlength⟩ := (B.interpretation .key).exists_encode .compressed h
  have hwire : Wire.ofBytes .key .compressed data = .ok ⟨.key, .compressed, data, hlength⟩ :=
    dif_pos hlength
  have hp' : B.suite.group₁.encodeCompressed p = .ok data := hp
  have hr' : B.suite.group₁.encodeCompressed r = .ok data := hr
  -- both triples are written the same way, and what is hashed is what is written
  have hwritten : ∀ r, B.suite.group₁.encodeCompressed r = .ok data →
      B.suite.toCompressed (.key r) = .ok ⟨.key, .compressed, data, hlength⟩ := by
    intro r hr
    show B.suite.group₁.encodeCompressed r >>= Wire.ofBytes .key .compressed = _
    rw [hr]
    exact hwire
  refine ⟨⟨.key, .compressed, data, hlength⟩, hwritten p hp', hwritten r hr', ?_, ?_⟩
  · rw [Suite.hashKey, hp']
    rfl
  · rw [Suite.hashKey, hr']
    rfl

namespace Laws

variable [One T] [Mul T] [DecidableEq T] {B : Backend T} {E : Type} [AddCommGroup E] (L : B.Laws E)
variable (k : Keypair) {p : Point Fq} (hp : reading₁.Coincide p (B.suite.publicKey k))

include L hp

/-- The pairing equation for a triple of a public key: the signature is the secret multiple of what is
    hashed. -/
theorem coreVerify_publicKey {h s : Point Fq2} (hh : coding₂.Member h) (hs : coding₂.Member s) :
    B.suite.coreVerify p h s =
      .ok (decide (reading₂.read s = k.secret.scalar • reading₂.read h)) := by
  have hread : reading₁.read p = k.secret.scalar • g₁ := hp.read_eq.trans (B.read_publicKey k)
  have hne : reading₁.read p ≠ 0 := by
    rw [hp.read_eq]
    exact B.read_publicKey_ne_zero k
  rw [L.coreVerify_eq hp.left hh hs, log_nsmul_of_eq hread]
  exact congrArg Except.ok (decide_eq_decide.mpr (and_iff_right hne))

/-- A proof for a triple of a public key. -/
theorem verifyPossession_publicKey {h s : Point Fq2} (hh : coding₂.Member h)
    (hhash : B.suite.hashKey p = .ok h) (hs : coding₂.Member s) :
    B.suite.verifyPossession p (.element (.proof s)) =
      .ok (decide (reading₂.read s = k.secret.scalar • reading₂.read h)) := by
  have hfinite : ¬ B.suite.group₁.isIdentity p = true := by
    intro hidentity
    apply B.read_publicKey_ne_zero k
    rw [← hp.read_eq]
    exact (reading₁.isIdentity_iff hp.left).mp hidentity
  rw [Suite.verifyPossession, Suite.coerce_proof, hhash]
  simp only [bind, Except.bind, if_neg hfinite]
  exact L.coreVerify_publicKey k hp hh hs

/-- For the public key of a non-zero secret scalar, in whatever form and scaling it is handed in: a member
    of the second group passes as its proof of possession exactly if it stands for the proof that the
    secret key makes.  Taken for a signature of the encoded key, that proof passes exactly if the encoding
    hashes to one element as a message and as a key, and so does the signature of the encoded key, taken
    for a proof. -/
theorem verifyPossession_exact {v : Value (Point Fq) (Point Fq2)}
    (hv : B.suite.coerce .key v false = .ok p) :
    ∃ (proof signed asKey asMessage : Point Fq2) (w : Wire),
      B.suite.prove k = .ok proof ∧ coding₂.Member proof ∧
      B.suite.toCompressed (.key (B.suite.publicKey k)) = .ok w ∧
      B.suite.toCompressed (.key p) = .ok w ∧
      B.suite.hashKey p = .ok asKey ∧ B.suite.hashMessage (.ofBytes w.bytes) = .ok asMessage ∧
      B.suite.sign k.secret (.ofBytes w.bytes) = .ok signed ∧
      (∀ s, coding₂.Member s →
        B.suite.verifyPossessionWith s v = .ok (decide (reading₂.read s = reading₂.read proof)) ∧
        B.suite.verifyPossession p (.element (.proof s)) =
          .ok (decide (reading₂.read s = reading₂.read proof))) ∧
      B.suite.verifyWith proof v (.ofBytes w.bytes) =
        .ok (decide (reading₂.read asMessage = reading₂.read asKey)) ∧
      B.suite.verifyPossessionWith signed v =
        .ok (decide (reading₂.read asMessage = reading₂.read asKey)) := by
  -- the key as it was handed in and the key as it was computed are written in one way
  obtain ⟨w, hw, hw', hhash, hhash'⟩ := B.exists_hashKey hp
  let asKey := B.hash .possession w.bytes
  let asMessage := B.hash .message w.bytes
  let proof := B.suite.group₂.multiply asKey k.secret.scalar
  let signed := B.suite.group₂.multiply asMessage k.secret.scalar
  have hkeyMember : coding₂.Member asKey := L.member_hash .possession w.bytes
  have hmessageMember : coding₂.Member asMessage := L.member_hash .message w.bytes
  have hproofMember : coding₂.Member proof := reading₂.valid_multiply hkeyMember k.secret.scalar
  have hsignedMember : coding₂.Member signed := reading₂.valid_multiply hmessageMember k.secret.scalar
  have hproof : reading₂.read proof = k.secret.scalar • reading₂.read asKey :=
    reading₂.read_multiply hkeyMember k.secret.scalar
  have hsigned : reading₂.read signed = k.secret.scalar • reading₂.read asMessage :=
    reading₂.read_multiply hmessageMember k.secret.scalar
  have hpossession : ∀ s, coding₂.Member s → B.suite.verifyPossession p (.element (.proof s)) =
      .ok (decide (reading₂.read s = reading₂.read proof)) := by
    intro s hs
    rw [hproof]
    exact L.verifyPossession_publicKey k hp hkeyMember hhash hs
  have hwith : ∀ s, B.suite.verifyPossessionWith s v =
      B.suite.verifyPossession p (.element (.proof s)) := by
    intro s
    rw [Suite.verifyPossessionWith, hv]
    rfl
  refine ⟨proof, signed, asKey, asMessage, w, ?_, hproofMember, hw', hw, hhash, rfl, rfl, ?_, ?_, ?_⟩
  · rw [Suite.prove, hhash']
    rfl
  · intro s hs
    rw [hwith]
    exact ⟨hpossession s hs, hpossession s hs⟩
  · -- the proof, checked for the encoding as a message
    have hsignature : B.suite.verifyWith proof v (.ofBytes w.bytes) =
        B.suite.coreVerify p asMessage proof := by
      rw [Suite.verifyWith, hv]
      rfl
    rw [hsignature, L.coreVerify_publicKey k hp hmessageMember hproofMember, hproof]
    exact congrArg Except.ok (decide_eq_decide.mpr ((scalar_nsmul_inj k).trans eq_comm))
  · rw [hwith, hpossession signed hsignedMember, hproof, hsigned]
    exact congrArg Except.ok (decide_eq_decide.mpr (scalar_nsmul_inj k))

end Laws

/-- The key three, handed in as it was computed and checked with the pairing by logarithms. -/
theorem verifyPossession_exact_three :
    reading₁.Coincide (logBackend.suite.publicKey ⟨⟨3, by decide⟩, by decide⟩)
        (logBackend.suite.publicKey ⟨⟨3, by decide⟩, by decide⟩) ∧
      logBackend.suite.coerce .key
          (.element (.key (logBackend.suite.publicKey ⟨⟨3, by decide⟩, by decide⟩))) false =
        .ok (logBackend.suite.publicKey ⟨⟨3, by decide⟩, by decide⟩) ∧
      ∃ proof, logBackend.suite.prove ⟨⟨3, by decide⟩, by decide⟩ = .ok proof ∧
        logBackend.suite.verifyPossessionWith generator₂
            (.element (.key (logBackend.suite.publicKey ⟨⟨3, by decide⟩, by decide⟩))) =
          .ok (decide (reading₂.read generator₂ = reading₂.read proof)) := by
  -- the key stands for itself
  let k : Keypair := ⟨⟨3, by decide⟩, by decide⟩
  have hmember := logBackend.member_publicKey k
  have hkey : reading₁.Coincide (logBackend.suite.publicKey k) (logBackend.suite.publicKey k) :=
    ⟨hmember, hmember, rfl⟩
  have hv := logBackend.suite.coerce_key (logBackend.suite.publicKey k) false
  obtain ⟨proof, signed, asKey, asMessage, w, hprove, -, -, -, -, -, -, hexact, -⟩ :=
    logLaws.verifyPossession_exact k hkey hv
  exact ⟨hkey, hv, proof, hprove, (hexact generator₂ member_generator₂).1⟩

end AggSig.Backend
