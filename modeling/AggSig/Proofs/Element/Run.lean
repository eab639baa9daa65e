/-
  The calls that make elements, and what they keep.

  A `Call` is one of the public operations that give an element, with its arguments, and `perform` is
  what it gives.  A `Run` is a sequence of calls in which every element that a call is handed was given
  by a call before it; bytes, numbers and messages come from outside.

  A property of points is *kept* by a suite if identities, decoded points and public keys have it, sums
  of points that have it do, and multiples of hashes do as far as these are good (`Suite.Keeps`).  Every
  element that a run gives then has it: `Keeps.perform` is the step, `Keeps.run` the induction.
-/
import AggSig.Possession
import AggSig.Proofs.Element.Sound
import AggSig.Proofs.Outcome

namespace AggSig

variable {P₁ P₂ T : Type}

/-- A call that gives an element. -/
inductive Call (P₁ P₂ : Type)
  | identity (f : Family)
  | ofBytes (f : Family) (v : Value P₁ P₂) (allowIdentity : Bool)
  | coerce (f : Family) (v : Value P₁ P₂) (allowIdentity : Bool)
  | decode (w : Wire) (allowIdentity : Bool)
  | publicKey (secret : SecretKey)
  | sign (secret : SecretKey) (message : Value P₁ P₂)
  | prove (secret : SecretKey)
  | aggregate (f : Family) (values : Value P₁ P₂)
  | aggregateWith (e : Element P₁ P₂) (values : Value P₁ P₂)
  | shardedAggregate (w : Shard.Workers) (f : Family) (values : Value P₁ P₂)
  | shardedAggregateWith (w : Shard.Workers) (e : Element P₁ P₂) (values : Value P₁ P₂)

/-- The element that a value is. -/
def Value.element? : Value P₁ P₂ → Option (Element P₁ P₂)
  | .element e => some e
  | _ => none

namespace Suite

variable (S : Suite P₁ P₂ T)

/-- The element that a call gives. -/
def perform : Call P₁ P₂ → Except Failure (Element P₁ P₂)
  | .identity f => .ok (.of f (S.group f).identity)
  | .ofBytes f v allowIdentity => .of f <$> S.elementOf f v allowIdentity
  | .coerce f v allowIdentity => .of f <$> S.coerce f v allowIdentity
  | .decode w allowIdentity => S.decodeWire w allowIdentity
  | .publicKey secret => (fun k => .key (S.publicKey k)) <$> Keypair.ofSecret secret
  | .sign secret message => .signature <$> S.sign secret message
  | .prove secret => .proof <$> (Keypair.ofSecret secret >>= S.prove)
  | .aggregate f values => .of f <$> S.aggregate f values
  | .aggregateWith e values => .of e.family <$> S.aggregateWith e.family e.point values
  | .shardedAggregate w f values => .of f <$> S.shardedAggregate w f values
  | .shardedAggregateWith w e values =>
    .of e.family <$> S.shardedAggregateWith w e.family e.point values

/-- The elements among the members of a value. -/
def elementsIn (values : Value P₁ P₂) : List (Element P₁ P₂) :=
  match S.items values with
  | .ok members => members.filterMap Value.element?
  | .error _ => []

/-- The elements that a call takes as elements.  What is taken as bytes is of no concern here. -/
def operands : Call P₁ P₂ → List (Element P₁ P₂)
  | .coerce _ v _ => v.element?.toList
  | .aggregate _ values | .shardedAggregate _ _ values => S.elementsIn values
  | .aggregateWith e values | .shardedAggregateWith _ e values => e :: S.elementsIn values
  | _ => []

/-- What a call hashes, with the tag that it is hashed under. -/
def hashed : Call P₁ P₂ → List (Tag × Bytes)
  | .sign _ message => ((S.bytesOf message).toOption.map fun data => (.message, data)).toList
  | .prove secret =>
    ((Keypair.ofSecret secret >>= fun k => S.group₁.encodeCompressed (S.publicKey k)).toOption.map
      fun data => (.possession, data)).toList
  | _ => []

/-- The elements there are after a call: a call that fails adds none. -/
def extend (pool : List (Element P₁ P₂)) (c : Call P₁ P₂) : List (Element P₁ P₂) :=
  match S.perform c with
  | .ok e => e :: pool
  | .error _ => pool

theorem extend_of_ok {S : Suite P₁ P₂ T} {c : Call P₁ P₂} {e : Element P₁ P₂}
    (h : S.perform c = .ok e) (pool : List (Element P₁ P₂)) : S.extend pool c = e :: pool := by
  rw [extend, h]

/-- A sequence of calls, each of which takes elements that were given before it, and the elements that
    are given in all. -/
inductive Run : List (Call P₁ P₂) → List (Element P₁ P₂) → Prop
  | start : Run [] []
  | step {calls : List (Call P₁ P₂)} {pool : List (Element P₁ P₂)} (c : Call P₁ P₂) :
      Run calls pool → (∀ e ∈ S.operands c, e ∈ pool) → Run (calls ++ [c]) (S.extend pool c)

/-- A call that succeeds makes a run longer, and its pool as well. -/
theorem Run.step_ok {S : Suite P₁ P₂ T} {calls : List (Call P₁ P₂)} {pool : List (Element P₁ P₂)}
    {c : Call P₁ P₂} {e : Element P₁ P₂} (hrun : S.Run calls pool)
    (hoperands : ∀ o ∈ S.operands c, o ∈ pool) (h : S.perform c = .ok e) :
    S.Run (calls ++ [c]) (e :: pool) := by
  rw [← extend_of_ok h]
  exact hrun.step c hoperands

end Suite

/-! ## What is kept -/

/-- A property of points that the identity has, that decoded points have, and that sums keep. -/
structure Group.Closed {P : Type} (G : Group P) (Sound : P → Prop) : Prop where
  identity : Sound G.identity
  add (p r : P) : Sound p → Sound r → Sound (G.add p r)
  decode {form : Form} {data : Bytes} {allowIdentity : Bool} {p : P} :
    G.decode form data allowIdentity = .ok p → Sound p

/-- A property of the points of every family that the operations of a suite keep, as far as hashes are
    good. -/
structure Suite.Keeps (S : Suite P₁ P₂ T) (Sound : (f : Family) → f.Point P₁ P₂ → Prop)
    (Good : P₂ → Prop) : Prop where
  group (f : Family) : (S.group f).Closed (Sound f)
  publicKey (k : Keypair) : Sound .key (S.publicKey k)
  signature {h : P₂} (n : Nat) : Good h → Sound .signature (S.group₂.multiply h n)
  proof {h : P₂} (n : Nat) : Good h → Sound .proof (S.group₂.multiply h n)

/-- A property of points, as one of elements. -/
def Element.Has (Sound : (f : Family) → f.Point P₁ P₂ → Prop) (e : Element P₁ P₂) : Prop :=
  Sound e.family e.point

@[simp] theorem Element.has_of {Sound : (f : Family) → f.Point P₁ P₂ → Prop} (f : Family)
    (p : f.Point P₁ P₂) : (Element.of f p).Has Sound ↔ Sound f p := by
  cases f <;> exact Iff.rfl

theorem Element.eq_of_as? {f : Family} {e : Element P₁ P₂} {p : f.Point P₁ P₂}
    (h : e.as? f = some p) : e = .of f p := by
  cases f <;> cases e <;> cases h <;> rfl

/-- Where the elements in a value have a property, those among its members have it. -/
theorem has_of_mem_members {S : Suite P₁ P₂ T} {Sound : (f : Family) → f.Point P₁ P₂ → Prop}
    {values : Value P₁ P₂} {members : List (Value P₁ P₂)} (h : S.items values = .ok members)
    (hvalues : ∀ e ∈ S.elementsIn values, e.Has Sound) :
    ∀ v ∈ members, ∀ e ∈ v.element?, e.Has Sound := by
  intro v hv e he
  apply hvalues
  rw [Suite.elementsIn, h]
  exact List.mem_filterMap.mpr ⟨v, hv, he⟩

namespace Suite

variable (S : Suite P₁ P₂ T) {f : Family} {Good : f.Point P₁ P₂ → Prop}

/-- What both decoders of a family give is all that is decoded. -/
theorem good_of_decodeElement {data : Bytes} {allowIdentity : Bool} {p : f.Point P₁ P₂}
    (hdecode : ∀ {form data allowIdentity p},
      (S.group f).decode form data allowIdentity = .ok p → Good p)
    (h : S.decodeElement f data allowIdentity = .ok p) : Good p := by
  rw [decodeElement] at h
  split at h
  · exact hdecode h
  · split at h
    · exact hdecode h
    · cases h

/-- A value that is taken as a point of a family is an element that holds it, or it was decoded. -/
theorem good_of_coerce {v : Value P₁ P₂} {allowIdentity : Bool} {p : f.Point P₁ P₂}
    (hdecode : ∀ {form data allowIdentity p},
      (S.group f).decode form data allowIdentity = .ok p → Good p)
    (hv : ∀ r, v = .element (.of f r) → Good r) (h : S.coerce f v allowIdentity = .ok p) :
    Good p := by
  -- elements are handed on as they are, wire values are decoded, and nothing else is taken
  cases v with
  | element e =>
    rw [coerce] at h
    cases hpoint : e.as? f with
    | none =>
      rw [hpoint] at h
      cases h
    | some r =>
      rw [hpoint] at h
      cases h
      exact hv p (congrArg Value.element (Element.eq_of_as? hpoint))
  | wire w =>
    rw [coerce] at h
    split at h
    · exact S.good_of_decodeElement hdecode h
    · cases h
  | _ => cases h

end Suite

namespace Suite.Keeps

variable {S : Suite P₁ P₂ T} {Sound : (f : Family) → f.Point P₁ P₂ → Prop} {Good : P₂ → Prop}
variable (K : S.Keeps Sound Good)

include K

theorem decodeElement {f : Family} {data : Bytes} {allowIdentity : Bool} {p : f.Point P₁ P₂}
    (h : S.decodeElement f data allowIdentity = .ok p) : Sound f p :=
  S.good_of_decodeElement (K.group f).decode h

/-- What a sound value is taken as is sound. -/
theorem coerce {f : Family} {v : Value P₁ P₂} {allowIdentity : Bool} {p : f.Point P₁ P₂}
    (hv : ∀ e ∈ v.element?, e.Has Sound) (h : S.coerce f v allowIdentity = .ok p) : Sound f p := by
  refine S.good_of_coerce (K.group f).decode ?_ h
  rintro r rfl
  exact (Element.has_of f r).mp (hv _ rfl)

/-- Taken from sound values, the members of a list are sound. -/
theorem coerceAll {f : Family} {members : List (Value P₁ P₂)} {points : List (f.Point P₁ P₂)}
    (hmembers : ∀ v ∈ members, ∀ e ∈ v.element?, e.Has Sound)
    (h : S.coerceAll f members = .ok points) : ∀ p ∈ points, Sound f p := by
  intro p hp
  obtain ⟨v, hv, hcoerce⟩ := exists_of_mem_mapM h hp
  exact K.coerce (hmembers v hv) hcoerce

/-- Sums onto a sound triple are sound. -/
theorem aggregateOnto {f : Family} {members : List (Value P₁ P₂)} {start p : f.Point P₁ P₂}
    (hmembers : ∀ v ∈ members, ∀ e ∈ v.element?, e.Has Sound) (hstart : Sound f start)
    (h : S.aggregateOnto f start members = .ok p) : Sound f p := by
  obtain ⟨points, hpoints, hsum⟩ := bind_eq_ok.mp h
  cases hsum
  exact GroupLaw.good_sum (K.group f).add (K.coerceAll hmembers hpoints) hstart

/-- Sums of sound values are sound. -/
theorem aggregateList {f : Family} {members : List (Value P₁ P₂)} {p : f.Point P₁ P₂}
    (hmembers : ∀ v ∈ members, ∀ e ∈ v.element?, e.Has Sound)
    (h : S.aggregateList f members = .ok p) : Sound f p := by
  cases members with
  | nil => cases h
  | cons first rest =>
    obtain ⟨hfirst, hrest⟩ := List.forall_mem_cons.mp hmembers
    obtain ⟨start, hstart, h⟩ := bind_eq_ok.mp h
    exact K.aggregateOnto hrest (K.coerce hfirst hstart) h

/-- So are sums over shards. -/
theorem aggregateShards {w : Shard.Workers} {f : Family} {members : List (Value P₁ P₂)}
    {p : f.Point P₁ P₂} (hmembers : ∀ v ∈ members, ∀ e ∈ v.element?, e.Has Sound)
    (h : S.aggregateShards w f members = .ok p) : Sound f p := by
  obtain ⟨points, hpoints, h⟩ := bind_eq_ok.mp h
  split at h
  · cases h
  · exact GroupLaw.good_shardSum (K.group f).add (K.coerceAll hmembers hpoints) (K.group f).identity h

/-- What is read from bytes is sound. -/
theorem elementOf {f : Family} {v : Value P₁ P₂} {allowIdentity : Bool} {p : f.Point P₁ P₂}
    (h : S.elementOf f v allowIdentity = .ok p) : Sound f p := by
  obtain ⟨count, -, h⟩ := bind_eq_ok.mp h
  split at h
  · obtain ⟨data, -, h⟩ := bind_eq_ok.mp h
    exact K.decodeElement h
  · cases h

/-- A signature is a multiple of a point that is good. -/
theorem sign {secret : SecretKey} {message : Value P₁ P₂} {p : P₂}
    (hhashed : ∀ u ∈ S.hashed (.sign secret message), Good (S.hash u.1 u.2))
    (h : S.sign secret message = .ok p) : Sound .signature p := by
  obtain ⟨point, hpoint, h⟩ := bind_eq_ok.mp h
  obtain ⟨data, hdata, rfl⟩ := map_eq_ok.mp hpoint
  cases h
  have hused : (.message, data) ∈ S.hashed (.sign secret message) := by
    rw [hashed, hdata]
    exact List.mem_singleton_self _
  exact K.signature _ (hhashed _ hused)

/-- So is a proof of possession. -/
theorem prove {secret : SecretKey} {k : Keypair} {p : P₂}
    (hhashed : ∀ u ∈ S.hashed (.prove secret), Good (S.hash u.1 u.2))
    (hk : Keypair.ofSecret secret = .ok k) (h : S.prove k = .ok p) : Sound .proof p := by
  obtain ⟨point, hpoint, h⟩ := bind_eq_ok.mp h
  obtain ⟨data, hdata, rfl⟩ := map_eq_ok.mp hpoint
  cases h
  have hused : (.possession, data) ∈ S.hashed (.prove secret) := by
    rw [hashed, bind_eq_ok.mpr ⟨k, hk, hdata⟩]
    exact List.mem_singleton_self _
  exact K.proof _ (hhashed _ hused)

/-- What a call gives has the property, if the elements that it takes have it and its hashes are
    good. -/
theorem perform {c : Call P₁ P₂} {e : Element P₁ P₂} (hoperands : ∀ o ∈ S.operands c, o.Has Sound)
    (hhashed : ∀ u ∈ S.hashed c, Good (S.hash u.1 u.2)) (h : S.perform c = .ok e) :
    e.Has Sound := by
  -- one case for each call: new elements are sound by the group, others by those that they are made from
  cases c with
  | identity f =>
    cases h
    exact (Element.has_of f _).mpr (K.group f).identity
  | ofBytes f v allowIdentity =>
    obtain ⟨p, hp, rfl⟩ := map_eq_ok.mp h
    exact (Element.has_of f p).mpr (K.elementOf hp)
  | coerce f v allowIdentity =>
    obtain ⟨p, hp, rfl⟩ := map_eq_ok.mp h
    refine (Element.has_of f p).mpr (K.coerce (fun o ho => hoperands o ?_) hp)
    exact Option.mem_toList.mpr ho
  | decode w allowIdentity =>
    obtain ⟨p, hp, rfl⟩ := map_eq_ok.mp h
    exact (Element.has_of w.family p).mpr (K.decodeElement hp)
  | publicKey secret =>
    obtain ⟨k, -, rfl⟩ := map_eq_ok.mp h
    exact K.publicKey k
  | sign secret message =>
    obtain ⟨p, hp, rfl⟩ := map_eq_ok.mp h
    exact K.sign hhashed hp
  | prove secret =>
    obtain ⟨p, hp, rfl⟩ := map_eq_ok.mp h
    obtain ⟨k, hk, hp⟩ := bind_eq_ok.mp hp
    exact K.prove hhashed hk hp
  | aggregate f values =>
    obtain ⟨p, hp, rfl⟩ := map_eq_ok.mp h
    obtain ⟨members, hmembers, hp⟩ := bind_eq_ok.mp hp
    exact (Element.has_of f p).mpr (K.aggregateList (has_of_mem_members hmembers hoperands) hp)
  | aggregateWith e values =>
    obtain ⟨p, hp, rfl⟩ := map_eq_ok.mp h
    obtain ⟨members, hmembers, hp⟩ := bind_eq_ok.mp hp
    obtain ⟨he, hvalues⟩ := List.forall_mem_cons.mp hoperands
    exact (Element.has_of e.family p).mpr
      (K.aggregateOnto (has_of_mem_members hmembers hvalues) he hp)
  | shardedAggregate w f values =>
    obtain ⟨p, hp, rfl⟩ := map_eq_ok.mp h
    obtain ⟨members, hmembers, hp⟩ := bind_eq_ok.mp hp
    exact (Element.has_of f p).mpr (K.aggregateShards (has_of_mem_members hmembers hoperands) hp)
  | shardedAggregateWith w e values =>
    obtain ⟨p, hp, rfl⟩ := map_eq_ok.mp h
    obtain ⟨members, hmembers, hp⟩ := bind_eq_ok.mp hp
    obtain ⟨he, hvalues⟩ := List.forall_mem_cons.mp hoperands
    rw [Element.has_of]
    split at hp
    · cases hp
      exact he
    · obtain ⟨total, htotal, hp⟩ := bind_eq_ok.mp hp
      cases hp
      have hsound := K.aggregateShards (has_of_mem_members hmembers hvalues) htotal
      exact (K.group e.family).add _ _ he hsound

/-- Every element that a run gives has the property, if all its hashes are good. -/
theorem run {calls : List (Call P₁ P₂)} {pool : List (Element P₁ P₂)} (hrun : S.Run calls pool)
    (hhashed : ∀ c ∈ calls, ∀ u ∈ S.hashed c, Good (S.hash u.1 u.2)) :
    ∀ e ∈ pool, e.Has Sound := by
  -- along the run: a failed call leaves the pool as it was
  induction hrun with
  | start =>
    intro e he
    cases he
  | @step calls pool c hrun hoperands ih =>
    have hpool := ih fun c' hc' => hhashed c' (List.mem_append_left [c] hc')
    have hlast := hhashed c (List.mem_append_right calls List.mem_cons_self)
    cases hresult : S.perform c with
    | error failure =>
      rw [Suite.extend, hresult]
      exact hpool
    | ok e =>
      rw [extend_of_ok hresult]
      refine List.forall_mem_cons.mpr ⟨?_, hpool⟩
      exact K.perform (fun o ho => hpool o (hoperands o ho)) hlast hresult

end Suite.Keeps

end AggSig
