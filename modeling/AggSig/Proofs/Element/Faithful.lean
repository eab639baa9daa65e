/-
  Elements stand for what they are compared as.

  The points that the operations give are sound, in every sequence of calls whose hashes are finite
  members (`run_faithful`).  On such elements the comparison is an equivalence; two elements of one
  family are the same exactly if they are written the same way, in either form; and the identity is what
  is the same as the identity (`Suite.Faithful`).
-/
import AggSig.Proofs.Coding.Affine
import AggSig.Proofs.Coding.Compressed
import AggSig.Proofs.Element.Run

namespace AggSig

/-! ## Groups that can be compared -/

/-- A group in which sound points are written in the right width, and are the same exactly if they are
    written the same way. -/
structure Group.Comparable {P : Type} (G : Group P) (side : Side) (Sound : P → Prop) : Prop where
  exists_encode (form : Form) {p : P} :
    Sound p → ∃ data, G.encode form p = .ok data ∧ data.length = side.width form
  same_iff (form : Form) {p r : P} :
    Sound p → Sound r → (G.same p r = true ↔ G.encode form p = G.encode form r)
  isIdentity_iff {p : P} : Sound p → (G.isIdentity p = true ↔ G.same p G.identity = true)

namespace Coding.Laws

variable {F : Type} [Field F] [DecidableEq F] {C : Coding F} (L : C.Laws)

include L

theorem exact (form : Form) : C.Exact form := by
  cases form with
  | affine => exact L.exact_affine
  | compressed => exact L.exact_compressed

/-- Soundness is kept by all operations of the group. -/
theorem closed : C.group.Closed C.Sound where
  identity := L.sound_infinity
  add _ _ hp hr := L.sound_add hp hr
  decode {form data allowIdentity p} h := by
    obtain ⟨-, hnormal, hmember, -⟩ := (L.exact form data allowIdentity p).mp h
    exact sound_of_normal_eq hmember hnormal

/-- Every member is written in the right width, and its normal form is written the same way. -/
theorem exists_encode_width (form : Form) {p : Point F} (hp : C.Member p) :
    ∃ data, C.group.encode form p = .ok data ∧ C.group.encode form p.normal = .ok data ∧
      data.length = C.side.width form := by
  obtain ⟨data, hdata, hnormal⟩ := L.exists_encode hp form
  have hdecode := (L.exact form data true p.normal).mpr
    ⟨hnormal, p.normal_normal, L.member_normal hp, fun _ => rfl⟩
  exact ⟨data, hdata, hnormal, length_of_decode hdecode⟩

/-- Sound triples can be compared by their encodings. -/
theorem comparable : C.group.Comparable C.side C.Sound where
  exists_encode form p hp := by
    obtain ⟨data, hdata, -, hlength⟩ := L.exists_encode_width form hp.member
    exact ⟨data, hdata, hlength⟩
  same_iff form _ _ hp hr := L.same_iff_encode_eq (L.exact form) hp hr
  isIdentity_iff hp := L.isInfinity_iff_same hp

end Coding.Laws

/-! ## Elements that can be compared -/

/-- Every element is made of a point of some family. -/
theorem Element.exists_eq_of {P₁ P₂ : Type} (e : Element P₁ P₂) : ∃ f p, e = .of f p := by
  cases e with
  | key p => exact ⟨.key, p, rfl⟩
  | signature p => exact ⟨.signature, p, rfl⟩
  | proof p => exact ⟨.proof, p, rfl⟩

namespace Suite

variable {P₁ P₂ T : Type} (S : Suite P₁ P₂ T)

/-- What elements can be relied on for. -/
structure Faithful (pool : List (Element P₁ P₂)) : Prop where
  equivalence : Equivalence fun e e' : {e // e ∈ pool} => S.sameElement e e' = true
  same_iff_affine {e e' : Element P₁ P₂} : e ∈ pool → e' ∈ pool → e.family = e'.family →
    ∃ w w', S.toAffine e = .ok w ∧ S.toAffine e' = .ok w' ∧
      (S.sameElement e e' = true ↔ w.bytes = w'.bytes)
  same_iff_compressed {e e' : Element P₁ P₂} : e ∈ pool → e' ∈ pool → e.family = e'.family →
    ∃ w w', S.toCompressed e = .ok w ∧ S.toCompressed e' = .ok w' ∧
      (S.sameElement e e' = true ↔ w.bytes = w'.bytes)
  /-- Elements that are the same have one digest. -/
  exists_digest {e e' : Element P₁ P₂} : e ∈ pool → e' ∈ pool → S.sameElement e e' = true →
    ∃ d, S.digest (.element e) = .ok d ∧ S.digest (.element e') = .ok d
  isIdentity_iff {e : Element P₁ P₂} : e ∈ pool →
    ((S.group e.family).isIdentity e.point = true ↔
      S.sameElement e (.of e.family (S.group e.family).identity) = true)

/-- The wire value of an element in a form. -/
def toForm (form : Form) (e : Element P₁ P₂) : Except Failure Wire :=
  match form with
  | .affine => S.toAffine e
  | .compressed => S.toCompressed e

theorem toForm_of (form : Form) (f : Family) (p : f.Point P₁ P₂) :
    S.toForm form (.of f p) = (S.group f).encode form p >>= Wire.ofBytes f form := by
  cases f <;> cases form <;> rfl

theorem sameElement_of (f : Family) (p r : f.Point P₁ P₂) :
    S.sameElement (.of f p) (.of f r) = (S.group f).same p r := by
  cases f <;> rfl

/-- Elements of different families are never the same. -/
theorem family_eq_of_sameElement {e e' : Element P₁ P₂} (h : S.sameElement e e' = true) :
    e.family = e'.family := by
  cases e <;> cases e' <;> first | rfl | cases h

variable {S} {Sound : (f : Family) → f.Point P₁ P₂ → Prop}
variable (hS : ∀ f, (S.group f).Comparable f.side (Sound f))

include hS

/-- A sound element has a wire value of each form. -/
theorem exists_toForm (form : Form) {f : Family} {p : f.Point P₁ P₂} (hp : Sound f p) :
    ∃ data, ∃ h : data.length = f.width form,
      S.toForm form (.of f p) = .ok ⟨f, form, data, h⟩ ∧ (S.group f).encode form p = .ok data := by
  obtain ⟨data, hdata, hlength⟩ := (hS f).exists_encode form hp
  refine ⟨data, hlength, ?_, hdata⟩
  rw [toForm_of, hdata]
  exact dif_pos hlength

/-- Elements of one family are the same exactly if their wire values have the same bytes. -/
theorem sameElement_iff_bytes_eq (form : Form) {e e' : Element P₁ P₂} (he : e.Has Sound)
    (he' : e'.Has Sound) (hfamily : e.family = e'.family) :
    ∃ w w', S.toForm form e = .ok w ∧ S.toForm form e' = .ok w' ∧
      (S.sameElement e e' = true ↔ w.bytes = w'.bytes) := by
  obtain ⟨f, p, rfl⟩ := e.exists_eq_of
  obtain ⟨f', r, rfl⟩ := e'.exists_eq_of
  rw [Element.family_of, Element.family_of] at hfamily
  subst hfamily
  rw [Element.has_of] at he he'
  obtain ⟨data, hlength, hw, hencode⟩ := exists_toForm hS form he
  obtain ⟨data', hlength', hw', hencode'⟩ := exists_toForm hS form he'
  refine ⟨_, _, hw, hw', ?_⟩
  rw [sameElement_of, (hS f).same_iff form he he', hencode, hencode', Except.ok.injEq]

/-- Elements are the same exactly if they have one wire value. -/
theorem sameElement_iff_toForm_eq (form : Form) {e e' : Element P₁ P₂} (he : e.Has Sound)
    (he' : e'.Has Sound) : S.sameElement e e' = true ↔ S.toForm form e = S.toForm form e' := by
  obtain ⟨f, p, rfl⟩ := e.exists_eq_of
  obtain ⟨f', r, rfl⟩ := e'.exists_eq_of
  rw [Element.has_of] at he he'
  obtain ⟨data, hlength, hw, hencode⟩ := exists_toForm hS form he
  obtain ⟨data', hlength', hw', hencode'⟩ := exists_toForm hS form he'
  rw [hw, hw', Except.ok.injEq, Wire.mk.injEq]
  by_cases hfamily : f = f'
  · subst hfamily
    rw [sameElement_of, (hS f).same_iff form he he', hencode, hencode', Except.ok.injEq]
    simp
  · refine iff_of_false (fun h => hfamily ?_) (fun h => hfamily h.1)
    simpa using S.family_eq_of_sameElement h

/-- Among sound elements the comparison is that of their wire values, so it is an equivalence. -/
theorem sameElement_equivalence {pool : List (Element P₁ P₂)} (hpool : ∀ e ∈ pool, e.Has Sound) :
    Equivalence fun e e' : {e // e ∈ pool} => S.sameElement e e' = true := by
  have hiff : ∀ e e' : {e // e ∈ pool},
      S.sameElement e e' = true ↔ S.toForm .affine e = S.toForm .affine e' := fun e e' =>
    sameElement_iff_toForm_eq hS .affine (hpool e e.2) (hpool e' e'.2)
  refine ⟨fun e => ?_, fun h => ?_, fun h h' => ?_⟩
  · rw [hiff]
  · rw [hiff] at h ⊢
    exact h.symm
  · rw [hiff] at h h' ⊢
    exact h.trans h'

/-- Sound elements can be relied on. -/
theorem faithful_of_has {pool : List (Element P₁ P₂)} (hpool : ∀ e ∈ pool, e.Has Sound) :
    S.Faithful pool where
  equivalence := sameElement_equivalence hS hpool
  same_iff_affine he he' hfamily :=
    sameElement_iff_bytes_eq hS .affine (hpool _ he) (hpool _ he') hfamily
  same_iff_compressed he he' hfamily :=
    sameElement_iff_bytes_eq hS .compressed (hpool _ he) (hpool _ he') hfamily
  -- the digest is that of the compressed form, so equality decides it
  exists_digest {e e'} he he' hsame := by
    have hfamily := S.family_eq_of_sameElement hsame
    obtain ⟨w, w', hw, hw', hiff⟩ :=
      sameElement_iff_bytes_eq hS .compressed (hpool e he) (hpool e' he') hfamily
    change S.toCompressed e = .ok w at hw
    change S.toCompressed e' = .ok w' at hw'
    refine ⟨.element e.typeName w.bytes, ?_, ?_⟩
    · rw [digest, hw]
      rfl
    · rw [digest, hw', hiff.mp hsame, Element.typeName, Element.typeName, hfamily]
      rfl
  isIdentity_iff {e} he := by
    have hsound := hpool e he
    obtain ⟨f, p, rfl⟩ := e.exists_eq_of
    rw [Element.has_of] at hsound
    have hp := (hS f).isIdentity_iff hsound
    cases f <;> exact hp

end Suite

/-! ## The suite that runs -/

/-- The sound points of a family. -/
def SoundPoint : (f : Family) → f.Point (Point Fq) (Point Fq2) → Prop
  | .key => coding₁.Sound
  | .signature => coding₂.Sound
  | .proof => coding₂.Sound

theorem comparable_group (f : Family) : (bls12381.group f).Comparable f.side (SoundPoint f) := by
  cases f with
  | key => exact laws₁.comparable
  | signature => exact laws₂.comparable
  | proof => exact laws₂.comparable

/-- A finite member of the second group: what a hash is expected to be. -/
def FiniteHash (h : Point Fq2) : Prop := coding₂.Member h ∧ h.isInfinity = false

instance (h : Point Fq2) : Decidable (FiniteHash h) := inferInstanceAs (Decidable (_ ∧ _))

/-- Multiples of the point of a message are sound. -/
theorem sound_multiply_of_finiteHash {h : Point Fq2} (hh : FiniteHash h) (n : Nat) :
    coding₂.Sound (bls12381.group₂.multiply h n) := by
  refine laws₂.sound_multiply hh.1 (fun hz => ?_) n
  rw [FiniteHash, Point.isInfinity_iff.mpr hz] at hh
  exact absurd hh.2 (by decide)

/-- The calls keep soundness. -/
theorem keeps_soundPoint : bls12381.Keeps SoundPoint FiniteHash where
  group f := by
    cases f with
    | key => exact laws₁.closed
    | signature => exact laws₂.closed
    | proof => exact laws₂.closed
  publicKey k := laws₁.sound_multiply member_generator (by decide) k.secret.scalar
  signature n hh := sound_multiply_of_finiteHash hh n
  proof n hh := sound_multiply_of_finiteHash hh n

/-- Every element that is given is sound, and can be relied on. -/
theorem run_faithful {calls : List (Call (Point Fq) (Point Fq2))}
    {pool : List (Element (Point Fq) (Point Fq2))} (hrun : bls12381.Run calls pool)
    (hhashed : ∀ c ∈ calls, ∀ u ∈ bls12381.hashed c, FiniteHash (bls12381.hash u.1 u.2)) :
    (∀ e ∈ pool, e.Has SoundPoint) ∧ bls12381.Faithful pool := by
  have hsound := keeps_soundPoint.run hrun hhashed
  exact ⟨hsound, Suite.faithful_of_has comparable_group hsound⟩

/-- In any suite a message can be signed and the signature added to itself. -/
theorem run_doubled_signature {P₁ P₂ T : Type} (S : Suite P₁ P₂ T) (secret : SecretKey)
    (data : Bytes) {p : P₂} (hp : p = S.group₂.multiply (S.hash .message data) secret.scalar) :
    S.Run
      [.sign secret (.ofBytes data),
        .aggregateWith (.signature p) (.list [.element (.signature p)])]
      [.signature (S.group₂.add p p), .signature p] := by
  have hsign : S.perform (.sign secret (.ofBytes data)) = .ok (.signature p) := by
    rw [hp]
    rfl
  have hfirst : S.Run [.sign secret (.ofBytes data)] [.signature p] :=
    Suite.Run.start.step_ok (fun o ho => nomatch ho) hsign
  refine hfirst.step_ok (fun o ho => ?_) rfl
  have hoperands : o ∈ [Element.signature p, Element.signature p] := ho
  simpa using hoperands

/-- A signature of the empty message and its sum with itself are sound. -/
theorem run_faithful_doubled_signature :
    ∃ p calls, p = bls12381.group₂.multiply (bls12381.hash .message []) 3 ∧
      bls12381.Run calls [.signature (bls12381.group₂.add p p), .signature p] ∧
      FiniteHash (bls12381.hash .message []) ∧
      SoundPoint .signature (bls12381.group₂.add p p) ∧
      bls12381.Faithful [.signature (bls12381.group₂.add p p), .signature p] := by
  obtain ⟨p, hp⟩ : ∃ p, p = bls12381.group₂.multiply (bls12381.hash .message []) 3 := ⟨_, rfl⟩
  have hrun := run_doubled_signature bls12381 ⟨3, by decide⟩ [] hp
  have hhash : FiniteHash (bls12381.hash .message []) := by decide +kernel
  -- the message is the only thing that is hashed
  have hhashed : ∀ c ∈ [Call.sign ⟨3, by decide⟩ (.ofBytes []),
      .aggregateWith (.signature p) (.list [.element (.signature p)])],
      ∀ u ∈ bls12381.hashed c, FiniteHash (bls12381.hash u.1 u.2) := by
    intro c hc u hu
    rcases List.mem_pair.mp hc with rfl | rfl
    · obtain rfl : u = (.message, []) := List.mem_singleton.mp hu
      exact hhash
    · cases hu
  obtain ⟨hsound, hfaithful⟩ := run_faithful hrun hhashed
  exact ⟨p, _, hp, hrun, hhash, hsound _ List.mem_cons_self, hfaithful⟩

end AggSig
