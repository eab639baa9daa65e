/-
  Every key that is generated can be used.

  A key is drawn, or derived from keying material, or from what a signer signs; none of them ever gives
  zero.  For keying material that is so because the rounds go on until one gives another number
  (`SecretKey.FirstRound`), and what they end with is that number (`SecretKey.firstScalar_eq`, by induction
  on the rounds that give zero).

  A key that is not zero has a keypair whose public key is a finite member of the first group, and the
  bytes of both are read back as what they were written for (`SecretKey.usable_of_ne_zero`).  Keypairs are
  told apart by their public keys (`Backend.scalar_eq_of_same`), because the generator has the group order
  and scalars are below it.
-/
import AggSig.Proofs.Key.Pair

namespace AggSig

/-! ## Loops -/

section

variable {α β : Type} [Nonempty β] {f : α → α ⊕ β} {a : α}

/-- What a loop ends with does not change while it goes on. -/
theorem run_repeatM_of_inl {next : α} (h : f a = .inl next) :
    Id.run (repeatM (fun a => pure (f a)) a) = Id.run (repeatM (fun a => pure (f a)) next) := by
  rw [repeatM_eq_of_monadTail, repeatM.body, pure_bind, h]

/-- A loop ends where its step says so. -/
theorem run_repeatM_of_inr {b : β} (h : f a = .inr b) :
    Id.run (repeatM (fun a => pure (f a)) a) = b := by
  rw [repeatM_eq_of_monadTail, repeatM.body, pure_bind, h]
  rfl

end

namespace SecretKey

/-! ## Rounds -/

/-- The salt that a round is made with: that before the first round, digested once more for each round. -/
def roundSalt (k : Nat) : Bytes := Sha256.digest^[k + 1] salt

/-- The rounds for some keying material end, with this number: the first one that is not zero. -/
def FirstRound (material : Bytes) (n : Nat) : Prop :=
  n ≠ 0 ∧ ∃ k, roundScalar material (roundSalt k) = n ∧ ∀ j < k, roundScalar material (roundSalt j) = 0

theorem roundScalar_lt (material salt : Bytes) : roundScalar material salt < groupOrder :=
  Nat.mod_lt _ prime_groupOrder.pos

variable {material : Bytes} {n : Nat}

theorem FirstRound.lt (h : FirstRound material n) : n < groupOrder := by
  obtain ⟨-, k, rfl, -⟩ := h
  exact roundScalar_lt _ _

/-- From whatever salt on, the rounds that give zero are passed over. -/
theorem firstScalar_eq (hn : n ≠ 0) {k : Nat} {start : Bytes}
    (hlast : roundScalar material (Sha256.digest^[k + 1] start) = n)
    (hbefore : ∀ j < k, roundScalar material (Sha256.digest^[j + 1] start) = 0) :
    firstScalar material start = n := by
  -- on the number of rounds that fail, from any salt
  induction k generalizing start with
  | zero =>
    have hlast' : roundScalar material (Sha256.digest start) = n := hlast
    refine run_repeatM_of_inr ?_
    rw [tryRound, hlast']
    exact if_neg hn
  | succ k ih =>
    have hfirst : roundScalar material (Sha256.digest start) = 0 := hbefore 0 (Nat.succ_pos k)
    have hround : tryRound material start = .inl (Sha256.digest start) := if_pos hfirst
    refine (run_repeatM_of_inl hround).trans (ih hlast fun j hj => ?_)
    exact hbefore (j + 1) (Nat.succ_lt_succ hj)

theorem FirstRound.firstScalar_eq (h : FirstRound material n) : firstScalar material salt = n := by
  obtain ⟨hn, k, hlast, hbefore⟩ := h
  exact SecretKey.firstScalar_eq hn hlast hbefore

/-! ## Three ways to a key -/

theorem ofInt_of_lt (h : n < groupOrder) : ofInt n = .ok ⟨n, h⟩ := ofInt_scalar ⟨n, h⟩

/-- The source is asked for a number below one less than the group order, which is one less than the key. -/
theorem random_eq {source : RandomSource} (h : source.pending.headD 0 < groupOrder - 1) :
    random source = (.ok ⟨source.pending.headD 0 + 1, Nat.add_lt_of_lt_sub h⟩,
      ⟨source.pending.tail, source.bounds ++ [groupOrder - 1]⟩) :=
  congrArg (·, _) (ofInt_of_lt (Nat.add_lt_of_lt_sub h))

/-- Material that is too short is refused with its length. -/
theorem derive_of_short (h : material.length < leastMaterial) :
    derive material = .error (.shortKeyMaterial material.length) :=
  if_pos h

/-- From enough material the scalar of the first round is derived. -/
theorem derive_of_firstRound (hlength : leastMaterial ≤ material.length) (h : FirstRound material n) :
    derive material = .ok ⟨n, h.lt⟩ := by
  rw [derive, if_neg (Nat.not_lt.mpr hlength), h.firstScalar_eq]
  exact ofInt_of_lt h.lt

/-- What a signer answers is no keying material: a failure, nothing but zeros, or too few bytes. -/
def NoMaterial : Except String Bytes → Prop
  | .error _ => True
  | .ok signature => (∀ b ∈ signature, b = 0) ∨ signature.length < leastMaterial

/-- An answer that is no material is refused. -/
theorem ofSignature_of_noMaterial {answer : Except String Bytes} (h : NoMaterial answer) :
    ∃ failure, ofSignature answer = .error failure ∧ failure.category = .error .keyDerivation := by
  cases answer with
  | error reason => exact ⟨_, rfl, rfl⟩
  | ok signature =>
    rw [ofSignature]
    split
    · exact ⟨_, rfl, rfl⟩
    · next hzeros =>
      have hshort : signature.length < leastMaterial :=
        h.resolve_left fun hall => hzeros (by simpa using hall)
      exact ⟨_, derive_of_short hshort, rfl⟩

theorem ofSignature_of_material {signature : Bytes} (h : ¬ NoMaterial (.ok signature)) :
    ofSignature (.ok signature) = derive signature :=
  if_neg fun hzeros => h (.inl (by simpa using hzeros))

/-- A signer is asked for one message only, and what it answers to that decides. -/
theorem deriveFromSigner_eq (signer : Signer) (seed : Bytes) :
    deriveFromSigner signer seed = (ofSignature (signer (signerMessage seed)), [signerMessage seed]) := by
  rw [deriveFromSigner, Signer.ask, List.nil_append]

end SecretKey

/-! ## Keypairs -/

/-- A keypair whose public key is a finite member of the first group, and whose bytes are read back. -/
structure Keypair.Works {T : Type} (S : Suite (Point Fq) (Point Fq2) T) (k : Keypair) : Prop where
  finite : (S.publicKey k).isInfinity = false
  onCurve : (S.publicKey k).onCurve b₁ = true
  hasOrder : S.group₁.hasOrder groupOrder (S.publicKey k) = true
  ofBytes : S.keypairOf (.ofBytes (S.keypairBytes k)) = .ok k
  ofPublicKey (form : Form) : ∃ data r, S.group₁.encode form (S.publicKey k) = .ok data ∧
    S.group₁.decode form data false = .ok r ∧ S.group₁.same r (S.publicKey k) = true

/-- A secret key that has a keypair that works. -/
def SecretKey.Usable {T : Type} (S : Suite (Point Fq) (Point Fq2) T) (secret : SecretKey) : Prop :=
  secret.scalar ≠ 0 ∧ ∃ k, Keypair.ofSecret secret = .ok k ∧ k.secret = secret ∧ k.Works S

namespace Backend

variable {T : Type} (B : Backend T)

/-- A public key that is derived works. -/
theorem works (k : Keypair) : k.Works B.suite where
  finite := B.isInfinity_publicKey k
  onCurve := (B.member_publicKey k).1
  hasOrder := (B.member_publicKey k).2
  ofBytes := by
    rw [Suite.keypairOf_of_content? _ rfl]
    exact B.keypairOfBytes_keypairBytes k
  ofPublicKey form := by
    have hmember := B.member_publicKey k
    have hfinite := B.isInfinity_publicKey k
    obtain ⟨data, hdata, -⟩ := laws₁.exists_encode hmember form
    exact ⟨data, _, hdata, laws₁.decode_normal hmember hfinite hdata, Point.same_normal _⟩

theorem usable_of_ne_zero {secret : SecretKey} (h : secret.scalar ≠ 0) : secret.Usable B.suite :=
  ⟨h, ⟨secret, h⟩, dif_neg h, rfl, B.works _⟩

/-- Public keys that are the same point are those of one scalar. -/
theorem scalar_eq_of_same {k k' : Keypair}
    (h : (B.suite.publicKey k).same (B.suite.publicKey k') = true) :
    k.secret.scalar = k'.secret.scalar := by
  have hnormal : (B.suite.publicKey k).normal = (B.suite.publicKey k').normal :=
    (Point.same_iff_normal_eq (B.sound_publicKey k).ne_degenerate
      (B.sound_publicKey k').ne_degenerate).mp h
  have hread : reading₁.read (B.suite.publicKey k) = reading₁.read (B.suite.publicKey k') := by
    have hk := (laws₁.coincide_normal (B.member_publicKey k)).read_eq
    have hk' := (laws₁.coincide_normal (B.member_publicKey k')).read_eq
    rw [hnormal] at hk
    exact hk.trans hk'.symm
  rw [B.read_publicKey, B.read_publicKey, nsmul_eq_nsmul_iff g₁_ne_zero] at hread
  exact hread.eq_of_lt_of_lt k.secret.lt k'.secret.lt

end Backend

/-! ## The suite that runs -/

open SecretKey

/-- Every key that is generated can be used.  A drawn key is one more than the number that the source gives.
    Keying material of thirty-two bytes or more gives the number that its rounds end with, and a signer,
    which is asked once, gives what its signature gives as keying material.  What is too short, and a signer
    that fails or answers nothing but zeros, is a failure of derivation.  Every number from one to the group
    order has a keypair that works, and no two of them have one public key. -/
theorem generated_keys_usable :
    (∀ source : RandomSource, source.pending.headD 0 < groupOrder - 1 → ∃ secret : SecretKey,
      random source = (.ok secret, ⟨source.pending.tail, source.bounds ++ [groupOrder - 1]⟩) ∧
        secret.scalar = source.pending.headD 0 + 1 ∧ secret.Usable bls12381) ∧
    (∀ material : Bytes,
      (material.length < 32 → ∃ failure, derive material = .error failure ∧
        failure.category = .error .keyDerivation) ∧
      ∀ n, 32 ≤ material.length → FirstRound material n → ∃ secret : SecretKey,
        derive material = .ok secret ∧ secret.scalar = n ∧ secret.Usable bls12381) ∧
    (∀ (signer : Signer) (seed : Bytes),
      (deriveFromSigner signer seed).2 = [Bytes.ofAscii "bls-key-derive-" ++ seed] ∧
      (NoMaterial (signer (signerMessage seed)) → ∃ failure,
        (deriveFromSigner signer seed).1 = .error failure ∧
          failure.category = .error .keyDerivation) ∧
      ∀ signature, signer (signerMessage seed) = .ok signature → ¬ NoMaterial (.ok signature) →
        (deriveFromSigner signer seed).1 = derive signature) ∧
    (∀ secret : SecretKey, secret.scalar ≠ 0 → secret.Usable bls12381) ∧
    ∀ k k' : Keypair, bls12381.group₁.same (bls12381.publicKey k) (bls12381.publicKey k') = true →
      k.secret.scalar = k'.secret.scalar := by
  rw [bls12381_eq_suite]
  refine ⟨fun source h => ?_, fun material => ⟨fun h => ?_, fun n hlength h => ?_⟩,
    fun signer seed => ?_, fun _ => Backend.usable_of_ne_zero _, fun k k' h => ?_⟩
  · exact ⟨_, random_eq h, rfl, Backend.usable_of_ne_zero _ (Nat.succ_ne_zero _)⟩
  · exact ⟨_, derive_of_short h, rfl⟩
  · exact ⟨_, derive_of_firstRound hlength h, rfl, Backend.usable_of_ne_zero _ h.1⟩
  · rw [deriveFromSigner_eq]
    refine ⟨rfl, ofSignature_of_noMaterial, fun signature hsignature h => ?_⟩
    rw [← ofSignature_of_material h, ← hsignature]
  · exact Backend.scalar_eq_of_same _ h

/-- The last number that the source may give, thirty-two bytes of keying material whose first round gives a
    key, a signer that answers with them, and one that fails.  The keys one and two differ. -/
theorem generated_keys_usable_ones :
    (∃ secret : SecretKey, random ⟨[groupOrder - 2], []⟩ = (.ok secret, ⟨[], [groupOrder - 1]⟩) ∧
      secret.scalar = groupOrder - 1 ∧ secret.Usable bls12381) ∧
    (∃ secret : SecretKey, derive (List.replicate 32 1) = .ok secret ∧ secret.Usable bls12381 ∧
      (deriveFromSigner (fun _ => .ok (List.replicate 32 1)) [7]).1 = .ok secret) ∧
    (∃ failure, derive [1, 2, 3] = .error failure ∧ failure.category = .error .keyDerivation) ∧
    (∃ failure, (deriveFromSigner (fun _ => .error "offline") [7]).1 = .error failure ∧
      failure.category = .error .keyDerivation) ∧
    (⟨1, by decide⟩ : SecretKey).Usable bls12381 ∧
    bls12381.group₁.same (bls12381.publicKey ⟨⟨1, by decide⟩, by decide⟩)
      (bls12381.publicKey ⟨⟨2, by decide⟩, by decide⟩) = false := by
  obtain ⟨hrandom, hderive, hsigner, husable, hsame⟩ := generated_keys_usable
  -- the first round gives a scalar already
  have hround : roundScalar (List.replicate 32 1) (roundSalt 0) ≠ 0 := by decide +kernel
  have hfirst : FirstRound (List.replicate 32 1) (roundScalar (List.replicate 32 1) (roundSalt 0)) :=
    ⟨hround, 0, rfl, fun j hj => absurd hj (Nat.not_lt_zero j)⟩
  have hmaterial : ¬ NoMaterial (.ok (List.replicate 32 1)) := by
    rintro (hzeros | hshort)
    · exact absurd (hzeros 1 (by decide)) (by decide)
    · exact absurd hshort (by decide)
  obtain ⟨secret, hsecret, -, hworks⟩ := (hderive _).2 _ (by decide) hfirst
  have hsigned := (hsigner (fun _ => .ok (List.replicate 32 1)) [7]).2.2 _ rfl hmaterial
  refine ⟨hrandom ⟨[groupOrder - 2], []⟩ (by decide), ⟨secret, hsecret, hworks, hsigned.trans hsecret⟩,
    (hderive [1, 2, 3]).1 (by decide), (hsigner (fun _ => .error "offline") [7]).2.1 trivial,
    husable _ (by decide), ?_⟩
  exact Bool.eq_false_iff.mpr fun h => absurd (hsame _ _ h) (by decide)

end AggSig
