/-
  The bytes of a keypair are canonical, and say that they are its bytes.

  Bytes of the right width are read in steps (`keypairOfBytes_eq`): a secret scalar that is below the group
  order and not zero, a member of the first group, and the comparison of that member with the public key.
  Both points are sound, so they are the same exactly if they are written the same way
  (`same_publicKey_iff`).  What is accepted is therefore what is written for the keypair, and nothing else
  (`keypairOfBytes_eq_ok_iff`).

  What is refused fails one of the steps first, and that decides the kind of the failure
  (`KeypairRefusal`).
-/
import AggSig.Proofs.Bytes
import AggSig.Proofs.Element.Refusal
import AggSig.Proofs.Value
import AggSig.Proofs.Verify.Single

namespace AggSig

/-! ## The two halves -/

/-- The number that the first bytes of a keypair spell. -/
def spelledScalar (data : Bytes) : Nat := Bytes.toNat (data.take secretKeyWidth)

/-- What is stored as the public key in the bytes of a keypair. -/
def storedKey (data : Bytes) : Bytes := data.drop secretKeyWidth

/-- The bytes are the affine encoding of a member of the first group other than the identity. -/
def SpellsKey (stored : Bytes) : Prop :=
  ∃ p, coding₁.Member p ∧ p.isInfinity = false ∧ coding₁.encodeAffine p = stored

/-- The affine encoding of the generator times a number. -/
def keyBytes (n : Nat) : Bytes := coding₁.encodeAffine (Point.law.multiply generator n)

theorem length_storedKey {data : Bytes} (h : data.length = keypairWidth) :
    (storedKey data).length = Family.key.width .affine := by
  rw [storedKey, List.length_drop, h]
  rfl

theorem length_take_secretKeyWidth {data : Bytes} (h : data.length = keypairWidth) :
    (data.take secretKeyWidth).length = secretKeyWidth := by
  rw [List.length_take, h]
  rfl

/-! ## Secret keys -/

namespace SecretKey

variable {data : Bytes} (hlength : data.length = secretKeyWidth)

include hlength

/-- Bytes that spell a number below the group order are read as that number. -/
theorem ofBytes_of_lt (h : Bytes.toNat data < groupOrder) :
    ofBytes data = .ok ⟨Bytes.toNat data, h⟩ := by
  rw [ofBytes, if_neg (not_not.mpr hlength)]
  exact ofInt_scalar ⟨Bytes.toNat data, h⟩

/-- A scalar from the group order on is refused. -/
theorem ofBytes_of_le (h : groupOrder ≤ Bytes.toNat data) :
    ofBytes data = .error .secretOutOfRange := by
  rw [ofBytes, if_neg (not_not.mpr hlength), ofInt, dif_neg]
  rintro ⟨-, hlt⟩
  exact absurd hlt (Nat.not_lt.mpr h)

/-- The bytes of a key are the only ones that are read as it. -/
theorem eq_toBytes_of_ofBytes {k : SecretKey} (h : ofBytes data = .ok k) : data = k.toBytes := by
  rcases Nat.lt_or_ge (Bytes.toNat data) groupOrder with hlt | hge
  · rw [ofBytes_of_lt hlength hlt] at h
    obtain rfl := Except.ok.inj h
    exact (Bytes.ofNat_toNat hlength).symm
  · cases (ofBytes_of_le hlength hge).symm.trans h

end SecretKey

/-! ## Public keys -/

/-- What the affine decoder accepts are the encodings of members other than the identity. -/
theorem exists_decodeAffine_iff_spellsKey {stored : Bytes} :
    (∃ p, coding₁.decodeAffine stored false = .ok p) ↔ SpellsKey stored := by
  constructor
  · rintro ⟨p, h⟩
    obtain ⟨hencode, -, hmember, hidentity⟩ := (laws₁.exact_affine stored false p).mp h
    refine ⟨p, hmember, ?_, Except.ok.inj hencode⟩
    exact Bool.eq_false_iff.mpr fun hinfinite => Bool.false_ne_true (hidentity hinfinite)
  · rintro ⟨p, hmember, hfinite, rfl⟩
    have hencode : coding₁.group.encode .affine p = .ok (coding₁.encodeAffine p) := rfl
    exact ⟨p.normal, laws₁.decode_normal hmember hfinite hencode⟩

/-- What is stored has the right width, and so is refused only if it gives no point. -/
theorem failsOnly_decodeAffine {data : Bytes} (h : data.length = keypairWidth) :
    FailsOnly Failure.IsOfPoint (coding₁.decodeAffine (storedKey data) false) := by
  show FailsOnly _ (coding₁.group.decode .affine (storedKey data) false)
  exact coding₁.failsOnly_decode (length_storedKey h) false

namespace Backend

variable {T : Type} (B : Backend T)

theorem sound_publicKey (k : Keypair) : coding₁.Sound (B.suite.publicKey k) :=
  laws₁.sound_multiply member_generator (by decide) k.secret.scalar

theorem isInfinity_publicKey (k : Keypair) : (B.suite.publicKey k).isInfinity = false := by
  refine Bool.eq_false_iff.mpr fun hinfinite => B.read_publicKey_ne_zero k ?_
  exact (reading₁.isIdentity_iff (B.member_publicKey k)).mp hinfinite

/-- A public key is the same as what its stored encoding was read as, and as nothing else. -/
theorem same_publicKey_iff {stored : Bytes} {p : Point Fq}
    (h : coding₁.decodeAffine stored false = .ok p) (k : Keypair) :
    p.same (B.suite.publicKey k) = true ↔ stored = keyBytes k.secret.scalar := by
  obtain ⟨hencode, hnormal, hmember, -⟩ := (laws₁.exact_affine stored false p).mp h
  -- cross multiplication tells points apart only if both are sound
  rw [laws₁.same_iff_encode_eq laws₁.exact_affine (Coding.sound_of_normal_eq hmember hnormal)
    (B.sound_publicKey k), hencode]
  show Except.ok stored = Except.ok (keyBytes k.secret.scalar) ↔ _
  rw [Except.ok.injEq]

include B in

theorem spellsKey_keyBytes (k : Keypair) : SpellsKey (keyBytes k.secret.scalar) :=
  ⟨B.suite.publicKey k, B.member_publicKey k, B.isInfinity_publicKey k, rfl⟩

/-! ## Keypairs -/

/-- A keypair is written as its scalar, followed by its public key. -/
theorem keypairBytes_eq (k : Keypair) :
    B.suite.keypairBytes k = k.secret.toBytes ++ keyBytes k.secret.scalar := rfl

/-- Bytes of the right width are read in steps. -/
theorem keypairOfBytes_eq {data : Bytes} (h : data.length = keypairWidth) :
    B.suite.keypairOfBytes data =
      SecretKey.ofBytes (data.take secretKeyWidth) >>= fun secret =>
        Keypair.ofSecret secret >>= fun k =>
          coding₁.decodeAffine (storedKey data) false >>= fun p =>
            if p.same (B.suite.publicKey k) then .ok k else .error .keysDisagree := by
  have hstored : Wire.ofBytes .key .affine (data.drop secretKeyWidth) =
      .ok ⟨.key, .affine, data.drop secretKeyWidth, length_storedKey h⟩ := dif_pos (length_storedKey h)
  rw [Suite.keypairOfBytes, if_neg (not_not.mpr h), hstored]
  -- the wire value in between has the right width, and so drops out
  refine bind_congr fun secret => bind_congr fun k => ?_
  have hdecode : B.suite.decodeElement .key (storedKey data) false =
      coding₁.decodeAffine (storedKey data) false :=
    B.suite.decodeElement_of_length (length_storedKey h) false
  show B.suite.decodeElement .key (storedKey data) false >>= _ = _
  rw [hdecode]
  rfl

/-- Once a number below the group order has been read, it has to be the secret of a keypair. -/
theorem keypairOfBytes_of_lt {data : Bytes} (h : data.length = keypairWidth)
    (hlt : spelledScalar data < groupOrder) :
    B.suite.keypairOfBytes data =
      Keypair.ofSecret ⟨spelledScalar data, hlt⟩ >>= fun k =>
        coding₁.decodeAffine (storedKey data) false >>= fun p =>
          if p.same (B.suite.publicKey k) then .ok k else .error .keysDisagree := by
  rw [B.keypairOfBytes_eq h, SecretKey.ofBytes_of_lt (length_take_secretKeyWidth h) hlt]
  rfl

/-- Zero is refused for that, whatever is stored as the public key. -/
theorem keypairOfBytes_of_zero {data : Bytes} (h : data.length = keypairWidth)
    (hzero : spelledScalar data = 0) : B.suite.keypairOfBytes data = .error .secretZero := by
  have hlt : spelledScalar data < groupOrder := hzero ▸ prime_groupOrder.pos
  have hsecret : Keypair.ofSecret ⟨spelledScalar data, hlt⟩ = .error .secretZero := dif_pos hzero
  rw [B.keypairOfBytes_of_lt h hlt, hsecret]
  rfl

/-- After any other number, what is left to read is the public key. -/
theorem keypairOfBytes_of_scalar {data : Bytes} (h : data.length = keypairWidth) {k : Keypair}
    (hk : k.secret.scalar = spelledScalar data) :
    B.suite.keypairOfBytes data =
      coding₁.decodeAffine (storedKey data) false >>= fun p =>
        if p.same (B.suite.publicKey k) then .ok k else .error .keysDisagree := by
  obtain ⟨⟨n, hlt⟩, hzero⟩ := k
  obtain rfl : n = spelledScalar data := hk
  have hsecret : Keypair.ofSecret ⟨spelledScalar data, hlt⟩ = .ok ⟨⟨spelledScalar data, hlt⟩, hzero⟩ :=
    dif_neg hzero
  rw [B.keypairOfBytes_of_lt h hlt, hsecret]
  rfl

/-- A keypair is read from its own bytes. -/
theorem keypairOfBytes_keypairBytes (k : Keypair) :
    B.suite.keypairOfBytes (B.suite.keypairBytes k) = .ok k := by
  -- what is written is cut in the same place
  have htake : (B.suite.keypairBytes k).take secretKeyWidth = k.secret.toBytes :=
    List.take_left' k.secret.length_toBytes
  have hstored : storedKey (B.suite.keypairBytes k) = keyBytes k.secret.scalar :=
    List.drop_left' k.secret.length_toBytes
  have hscalar : k.secret.scalar = spelledScalar (B.suite.keypairBytes k) := by
    rw [spelledScalar, htake, SecretKey.toBytes, Bytes.toNat_ofNat _ _ (k.secret.lt.trans (by decide))]
  obtain ⟨p, hp⟩ := exists_decodeAffine_iff_spellsKey.mpr (B.spellsKey_keyBytes k)
  have hdecode : coding₁.group.decode .affine (keyBytes k.secret.scalar) false = .ok p := hp
  have hlength : (B.suite.keypairBytes k).length = keypairWidth := by
    rw [B.keypairBytes_eq, List.length_append, k.secret.length_toBytes, Coding.length_of_decode hdecode]
    rfl
  rw [B.keypairOfBytes_of_scalar hlength hscalar, hstored, hp]
  exact if_pos ((B.same_publicKey_iff hp k).mpr rfl)

/-- What is read as a keypair are its bytes: the first half is that of its secret key, and the other half
    is what is written for its public key. -/
theorem eq_keypairBytes_of_keypairOfBytes {data : Bytes} {k : Keypair}
    (h : B.suite.keypairOfBytes data = .ok k) : data = B.suite.keypairBytes k := by
  by_cases hlength : data.length = keypairWidth
  · rw [B.keypairOfBytes_eq hlength] at h
    obtain ⟨secret, hsecret, h⟩ := bind_eq_ok.mp h
    obtain ⟨k', hk', h⟩ := bind_eq_ok.mp h
    obtain ⟨p, hp, h⟩ := bind_eq_ok.mp h
    obtain ⟨rfl, hsame⟩ : k' = k ∧ p.same (B.suite.publicKey k') = true := by
      split at h
      · next hsame => exact ⟨Except.ok.inj h, hsame⟩
      · cases h
    obtain rfl : secret = k'.secret := by
      rw [Keypair.ofSecret] at hk'
      split at hk'
      · cases hk'
      · exact congrArg Keypair.secret (Except.ok.inj hk')
    -- the scalar is written back as it was read, and the stored key is that of the scalar
    have htake := SecretKey.eq_toBytes_of_ofBytes (length_take_secretKeyWidth hlength) hsecret
    have hdrop : data.drop secretKeyWidth = keyBytes k'.secret.scalar :=
      (B.same_publicKey_iff hp k').mp hsame
    rw [B.keypairBytes_eq, ← htake, ← hdrop, List.take_append_drop]
  · rw [Suite.keypairOfBytes, if_pos hlength] at h
    cases h

/-- A keypair is read from its own bytes and no others. -/
theorem keypairOfBytes_eq_ok_iff {data : Bytes} {k : Keypair} :
    B.suite.keypairOfBytes data = .ok k ↔ data = B.suite.keypairBytes k := by
  refine ⟨B.eq_keypairBytes_of_keypairOfBytes, fun hdata => ?_⟩
  rw [hdata, B.keypairOfBytes_keypairBytes]

end Backend

/-! ## Refusals -/

/-- The step that the bytes of a keypair fail first, and the kind of the failure that they are refused
    with for that. -/
inductive KeypairRefusal (data : Bytes) (failure : Failure) : Prop
  | width : data.length ≠ keypairWidth → failure.category = .error .invalidLength →
      KeypairRefusal data failure
  | scalarTooLarge : data.length = keypairWidth → groupOrder ≤ spelledScalar data →
      failure.category = .error .fieldDecode → KeypairRefusal data failure
  | scalarZero : data.length = keypairWidth → spelledScalar data = 0 →
      failure.category = .error .keyDerivation → KeypairRefusal data failure
  | noKey : data.length = keypairWidth → 0 < spelledScalar data → spelledScalar data < groupOrder →
      ¬ SpellsKey (storedKey data) → failure.IsOfPoint → KeypairRefusal data failure
  | otherKey : data.length = keypairWidth → 0 < spelledScalar data → spelledScalar data < groupOrder →
      SpellsKey (storedKey data) → storedKey data ≠ keyBytes (spelledScalar data) →
      failure.category = .error .parseFromBytes → KeypairRefusal data failure

/-- Every refusal is reported. -/
theorem KeypairRefusal.isReported {data : Bytes} {failure : Failure} (h : KeypairRefusal data failure) :
    failure.IsReported := by
  cases h with
  | width _ hcategory => exact ⟨_, hcategory⟩
  | scalarTooLarge _ _ hcategory => exact ⟨_, hcategory⟩
  | scalarZero _ _ hcategory => exact ⟨_, hcategory⟩
  | noKey _ _ _ _ hpoint => exact hpoint.isReported
  | otherKey _ _ _ _ _ hcategory => exact ⟨_, hcategory⟩

namespace Backend

variable {T : Type} (B : Backend T) {data : Bytes} {failure : Failure}

/-- With a secret key to begin with, what is stored is no public key or another one. -/
theorem keypairRefusal_of_scalar (hlength : data.length = keypairWidth) {k : Keypair}
    (hk : k.secret.scalar = spelledScalar data) (h : B.suite.keypairOfBytes data = .error failure) :
    KeypairRefusal data failure := by
  have hpos : 0 < spelledScalar data := hk ▸ Nat.pos_of_ne_zero k.ne_zero
  have hlt : spelledScalar data < groupOrder := hk ▸ k.secret.lt
  rw [B.keypairOfBytes_of_scalar hlength hk] at h
  -- with the scalar in range, the stored key is refused, or it is another one
  cases hdecode : coding₁.decodeAffine (storedKey data) false with
  | error e =>
    rw [hdecode] at h
    cases h
    refine .noKey hlength hpos hlt (fun hspells => ?_) (failsOnly_decodeAffine hlength _ hdecode)
    obtain ⟨p, hp⟩ := exists_decodeAffine_iff_spellsKey.mpr hspells
    cases hp.symm.trans hdecode
  | ok p =>
    rw [hdecode] at h
    by_cases hsame : p.same (B.suite.publicKey k) = true
    · cases (if_pos hsame).symm.trans h
    · cases (if_neg hsame).symm.trans h
      refine .otherKey hlength hpos hlt (exists_decodeAffine_iff_spellsKey.mp ⟨p, hdecode⟩) ?_ rfl
      rw [← hk]
      exact fun hstored => hsame ((B.same_publicKey_iff hdecode k).mpr hstored)

/-- What is refused is refused for the first step that it fails. -/
theorem keypairRefusal (h : B.suite.keypairOfBytes data = .error failure) :
    KeypairRefusal data failure := by
  -- width, range and zero in the order of the reader; then the stored key decides
  by_cases hlength : data.length = keypairWidth
  · rcases Nat.lt_or_ge (spelledScalar data) groupOrder with hlt | hge
    · by_cases hzero : spelledScalar data = 0
      · rw [B.keypairOfBytes_of_zero hlength hzero] at h
        cases h
        exact .scalarZero hlength hzero rfl
      · let k : Keypair := ⟨⟨spelledScalar data, hlt⟩, hzero⟩
        exact B.keypairRefusal_of_scalar (k := k) hlength rfl h
    · rw [B.keypairOfBytes_eq hlength,
        SecretKey.ofBytes_of_le (length_take_secretKeyWidth hlength) hge] at h
      cases h
      exact .scalarTooLarge hlength hge rfl
  · rw [Suite.keypairOfBytes, if_pos hlength] at h
    cases h
    exact .width hlength rfl

end Backend

/-! ## The suite that runs -/

/-- The bytes of a value are read as they are, whatever their number is. -/
theorem Suite.keypairOf_of_content? {P₁ P₂ T : Type} (S : Suite P₁ P₂ T) {v : Value P₁ P₂} {data : Bytes}
    (h : v.content? = some data) : S.keypairOf v = S.keypairOfBytes data := by
  rw [keypairOf, S.bytesOfWidth_of_content? h]
  by_cases hlength : data.length = Sized.keypair.width
  · rw [if_pos hlength]
    rfl
  · rw [if_neg hlength, keypairOfBytes, if_pos (show data.length ≠ keypairWidth from hlength)]
    rfl

/-- The keypair decoder takes exactly the bytes of keypairs, each as its own keypair.  These are the
    thirty-two bytes of a number from one to the group order and the affine encoding of the generator times
    that number.  All other byte strings are refused for the first step that they fail. -/
theorem keypairOf_exact {v : Value (Point Fq) (Point Fq2)} {data : Bytes} (h : v.content? = some data) :
    (∀ k, bls12381.keypairOf v = .ok k ↔ bls12381.bytesOf (.keypair k) = .ok data) ∧
    ((∃ k, bls12381.keypairOf v = .ok k) ↔
      ∃ n, 1 ≤ n ∧ n < groupOrder ∧ data = Bytes.ofNat secretKeyWidth n ++ keyBytes n) ∧
    ∀ failure, bls12381.keypairOf v = .error failure → KeypairRefusal data failure := by
  rw [bls12381_eq_suite, Suite.keypairOf_of_content? _ h]
  refine ⟨fun k => ?_, ?_, fun failure => Backend.keypairRefusal _⟩
  · rw [Backend.keypairOfBytes_eq_ok_iff]
    show _ ↔ Except.ok _ = Except.ok data
    rw [Except.ok.injEq, eq_comm]
  · simp only [Backend.keypairOfBytes_eq_ok_iff]
    constructor
    · rintro ⟨k, hk⟩
      exact ⟨k.secret.scalar, Nat.pos_of_ne_zero k.ne_zero, k.secret.lt, hk⟩
    · rintro ⟨n, hpos, hlt, hdata⟩
      exact ⟨⟨⟨n, hlt⟩, Nat.pos_iff_ne_zero.mp hpos⟩, hdata⟩

/-- The bytes of the keypair of one are taken, and zeros are refused as a key. -/
theorem keypairOf_exact_one :
    (Value.ofBytes (Bytes.ofNat 32 1 ++ keyBytes 1) : Value (Point Fq) (Point Fq2)).content? =
      some (Bytes.ofNat 32 1 ++ keyBytes 1) ∧
    (∃ k, bls12381.keypairOf (.ofBytes (Bytes.ofNat 32 1 ++ keyBytes 1)) = .ok k) ∧
    bls12381.keypairOf (.ofBytes (Bytes.zeros 128)) = .error .secretZero ∧
    KeypairRefusal (Bytes.zeros 128) .secretZero := by
  have hzeros : bls12381.keypairOf (.ofBytes (Bytes.zeros 128)) = .error .secretZero := by
    rw [bls12381_eq_suite, Suite.keypairOf_of_content? _ rfl]
    exact Backend.keypairOfBytes_of_zero _ (Bytes.length_zeros 128) (by decide +kernel)
  exact ⟨rfl, (keypairOf_exact rfl).2.1.mpr ⟨1, by decide, by decide, rfl⟩, hzeros,
    (keypairOf_exact rfl).2.2 _ hzeros⟩

end AggSig
