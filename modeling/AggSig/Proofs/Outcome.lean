/-
  Computations that can fail, told from their results.

  What succeeds did so step by step: a sequence of two steps because both did (`bind_eq_ok`), and a step
  on all members of a list because it did on each of them (`exists_of_mem_mapM`).  A step that fails on a
  list fails as it does on the first member that it fails on (`mapM_eq_error_iff`).

  What fails in expected ways only (`FailsOnly`) does so step by step as well.

  Two computations agree if both have results, which are related, or both fail in the same way, that is,
  with failures of one category (`Agree`).  What is done next then agrees as well (`Agree.bind`).
-/
import AggSig.RawPoint

namespace AggSig

variable {α β ε : Type}

/-- Two steps succeed if the first one does and the second one does on what it gives. -/
theorem bind_eq_ok {x : Except ε α} {f : α → Except ε β} {b : β} :
    x >>= f = .ok b ↔ ∃ a, x = .ok a ∧ f a = .ok b := by
  cases x with
  | error failure => exact ⟨fun h => (by cases h), fun ⟨_, h, _⟩ => (by cases h)⟩
  | ok a => exact ⟨fun h => ⟨a, rfl, h⟩, fun ⟨_, h, hb⟩ => (by cases h; exact hb)⟩

/-- What is answered with yes has not been turned down before. -/
theorem eq_false_of_guarded {refused : Bool} {x : Except ε Bool}
    (h : (if refused = true then .ok false else x) = .ok true) : refused = false := by
  cases refused with
  | false => rfl
  | true => cases h

/-- A function applied to the result succeeds where there is one. -/
theorem map_eq_ok {x : Except ε α} {f : α → β} {b : β} :
    f <$> x = .ok b ↔ ∃ a, x = .ok a ∧ f a = b := by
  cases x with
  | error failure => exact ⟨fun h => (by cases h), fun ⟨_, h, _⟩ => (by cases h)⟩
  | ok a => exact ⟨fun h => ⟨a, rfl, Except.ok.inj h⟩, fun ⟨_, h, hb⟩ => (by cases h; cases hb; rfl)⟩

/-- A step that is followed by one that never fails is what fails. -/
theorem bind_eq_error_iff {x : Except ε α} {f : α → Except ε β} {failure : ε}
    (hf : ∀ a, x = .ok a → ∃ b, f a = .ok b) : x >>= f = .error failure ↔ x = .error failure := by
  cases x with
  | error e =>
    show (Except.error e : Except ε β) = .error failure ↔ _
    rw [Except.error.injEq, Except.error.injEq]
  | ok a =>
    obtain ⟨b, hb⟩ := hf a rfl
    refine iff_of_false (fun h => ?_) (fun h => nomatch h)
    have hok : f a = .error failure := h
    cases hb.symm.trans hok

/-- Every result of a step on the members of a list is its result on one of them. -/
theorem exists_of_mem_mapM {f : α → Except ε β} {items : List α} {results : List β}
    (h : items.mapM f = .ok results) {b : β} (hb : b ∈ results) : ∃ a ∈ items, f a = .ok b := by
  -- on the list: the result is that of its first member or one of the others'
  induction items generalizing results with
  | nil =>
    cases h
    cases hb
  | cons a rest ih =>
    rw [List.mapM_cons] at h
    obtain ⟨first, hfirst, h⟩ := bind_eq_ok.mp h
    obtain ⟨others, hothers, h⟩ := bind_eq_ok.mp h
    cases h
    rcases List.mem_cons.mp hb with rfl | hb
    · exact ⟨a, List.mem_cons_self, hfirst⟩
    · obtain ⟨c, hc, hresult⟩ := ih hothers hb
      exact ⟨c, List.mem_cons_of_mem a hc, hresult⟩

/-- It has a result on each of them. -/
theorem exists_mem_of_mapM {f : α → Except ε β} {items : List α} {results : List β}
    (h : items.mapM f = .ok results) {a : α} (ha : a ∈ items) : ∃ b ∈ results, f a = .ok b := by
  induction items generalizing results with
  | nil => cases ha
  | cons first rest ih =>
    rw [List.mapM_cons] at h
    obtain ⟨b, hb, h⟩ := bind_eq_ok.mp h
    obtain ⟨others, hothers, h⟩ := bind_eq_ok.mp h
    cases h
    rcases List.mem_cons.mp ha with rfl | ha
    · exact ⟨b, List.mem_cons_self, hb⟩
    · obtain ⟨c, hc, hresult⟩ := ih hothers ha
      exact ⟨c, List.mem_cons_of_mem b hc, hresult⟩

/-- A step that succeeds on every member of a list succeeds on the list. -/
theorem mapM_ok {f : α → Except ε β} {g : α → β} {items : List α}
    (h : ∀ a ∈ items, f a = .ok (g a)) : items.mapM f = .ok (items.map g) := by
  induction items with
  | nil => rfl
  | cons a rest ih =>
    rw [List.mapM_cons, h a List.mem_cons_self, ih fun b hb => h b (List.mem_cons_of_mem a hb)]
    rfl

/-- Only an empty list has no results. -/
theorem eq_nil_of_mapM_eq_nil {f : α → Except ε β} {items : List α} (h : items.mapM f = .ok []) :
    items = [] := by
  cases items with
  | nil => rfl
  | cons a rest =>
    rw [List.mapM_cons] at h
    obtain ⟨first, -, h⟩ := bind_eq_ok.mp h
    obtain ⟨others, -, h⟩ := bind_eq_ok.mp h
    cases h

/-- A step on the members of a list has as many results as there are members. -/
theorem length_of_mapM_eq_ok {f : α → Except ε β} {items : List α} {results : List β}
    (h : items.mapM f = .ok results) : results.length = items.length := by
  induction items generalizing results with
  | nil =>
    cases h
    rfl
  | cons a rest ih =>
    rw [List.mapM_cons] at h
    obtain ⟨first, -, h⟩ := bind_eq_ok.mp h
    obtain ⟨others, hothers, h⟩ := bind_eq_ok.mp h
    cases h
    rw [List.length_cons, List.length_cons, ih hothers]

/-- What is done to every result can be done afterwards. -/
theorem mapM_map_results {γ : Type} (f : α → Except ε β) (g : β → γ) (items : List α) :
    items.mapM (fun a => g <$> f a) = List.map g <$> items.mapM f := by
  induction items with
  | nil => rfl
  | cons a rest ih =>
    rw [List.mapM_cons, List.mapM_cons, ih]
    -- either the first step fails, in both, or the rest decides
    cases f a with
    | error e => rfl
    | ok b => cases rest.mapM f <;> rfl

/-! ## The first failure -/

/-- The failure of the first member of a list that a step fails on. -/
def FirstFailure (f : α → Except ε β) (items : List α) (failure : ε) : Prop :=
  ∃ before a after, items = before ++ a :: after ∧ (∀ b ∈ before, ∃ result, f b = .ok result) ∧
    f a = .error failure

theorem not_firstFailure_nil {f : α → Except ε β} {failure : ε} : ¬ FirstFailure f [] failure := by
  rintro ⟨before, a, after, h, -⟩
  exact List.append_ne_nil_of_right_ne_nil before (List.cons_ne_nil a after) h.symm

/-- It is that of the first member, or the first one of the others. -/
theorem firstFailure_cons {f : α → Except ε β} {a : α} {rest : List α} {failure : ε} :
    FirstFailure f (a :: rest) failure ↔
      f a = .error failure ∨ (∃ result, f a = .ok result) ∧ FirstFailure f rest failure := by
  constructor
  · rintro ⟨_ | ⟨b, before⟩, c, after, hitems, hbefore, hfailure⟩
    · obtain ⟨rfl, rfl⟩ := List.cons.inj hitems
      exact .inl hfailure
    · obtain ⟨rfl, rfl⟩ := List.cons.inj hitems
      obtain ⟨hfirst, hothers⟩ := List.forall_mem_cons.mp hbefore
      exact .inr ⟨hfirst, before, c, after, rfl, hothers, hfailure⟩
  · rintro (hfailure | ⟨hfirst, before, c, after, rfl, hbefore, hfailure⟩)
    · exact ⟨[], a, rest, rfl, fun b hb => (nomatch hb), hfailure⟩
    · exact ⟨a :: before, c, after, rfl, List.forall_mem_cons.mpr ⟨hfirst, hbefore⟩, hfailure⟩

/-- A step on the members of a list fails as it does on the first that it fails on. -/
theorem mapM_eq_error_iff {f : α → Except ε β} {items : List α} {failure : ε} :
    items.mapM f = .error failure ↔ FirstFailure f items failure := by
  induction items with
  | nil => exact iff_of_false (fun h => nomatch h) not_firstFailure_nil
  | cons a rest ih =>
    rw [firstFailure_cons, ← ih, List.mapM_cons]
    -- a failure of the first member is the answer; its result leaves the question to the others
    cases hfirst : f a with
    | error e =>
      show Except.error e = Except.error failure ↔ _
      simp
    | ok b =>
      cases hrest : rest.mapM f with
      | error e =>
        show Except.error e = Except.error failure ↔ _
        simp
      | ok others => exact iff_of_false (fun h => nomatch h) (by simp)

/-- In two rows, one after the other, the first failure is that of the first row, or of the second one if
    the first row has none. -/
theorem firstFailure_append {f : α → Except ε β} {items others : List α} {failure : ε} :
    FirstFailure f (items ++ others) failure ↔
      FirstFailure f items failure ∨
        (∀ a ∈ items, ∃ result, f a = .ok result) ∧ FirstFailure f others failure := by
  -- on the first row, which gives up its members to the front one by one
  induction items with
  | nil =>
    rw [List.nil_append]
    refine ⟨fun h => .inr ⟨fun a ha => (nomatch ha), h⟩, ?_⟩
    rintro (h | ⟨-, h⟩)
    · exact absurd h not_firstFailure_nil
    · exact h
  | cons a rest ih =>
    rw [List.cons_append, firstFailure_cons, firstFailure_cons, ih, List.forall_mem_cons,
      and_or_left, or_assoc, and_assoc]

/-! ## Failures of one sort -/

/-- Every failure of the computation is of the given sort. -/
def FailsOnly (p : ε → Prop) (x : Except ε α) : Prop := ∀ failure, x = .error failure → p failure

namespace FailsOnly

variable {p : ε → Prop} {x : Except ε α}

theorem ok (a : α) : FailsOnly p (.ok a : Except ε α) := fun _ h => nomatch h

theorem error {failure : ε} (h : p failure) : FailsOnly p (.error failure : Except ε α) := by
  intro _ heq
  cases heq
  exact h

theorem mono {p' : ε → Prop} (h : FailsOnly p x) (hp : ∀ failure, p failure → p' failure) :
    FailsOnly p' x :=
  fun failure hfailure => hp failure (h failure hfailure)

/-- What comes after is looked at where there is a result. -/
theorem bind (h : FailsOnly p x) {f : α → Except ε β} (hf : ∀ a, x = .ok a → FailsOnly p (f a)) :
    FailsOnly p (x >>= f) := by
  cases x with
  | error failure => exact error (h failure rfl)
  | ok a => exact hf a rfl

theorem map (h : FailsOnly p x) (f : α → β) : FailsOnly p (f <$> x) := by
  cases x with
  | error failure => exact error (h failure rfl)
  | ok a => exact ok (f a)

/-- On a list, only a failure of a step on a member is one. -/
theorem mapM {f : α → Except ε β} {items : List α} (h : ∀ a ∈ items, FailsOnly p (f a)) :
    FailsOnly p (items.mapM f) := by
  intro failure hfailure
  -- the failure is that of some member
  obtain ⟨before, a, after, rfl, -, ha⟩ := mapM_eq_error_iff.mp hfailure
  exact h a (List.mem_append_right before List.mem_cons_self) failure ha

end FailsOnly

/-! ## Agreement -/

/-- Both computations have results, which are related, or both fail with failures of one category. -/
inductive Agree (R : α → β → Prop) : Except Failure α → Except Failure β → Prop
  | ok {a : α} {b : β} : R a b → Agree R (.ok a) (.ok b)
  | error {e e' : Failure} : e.category = e'.category → Agree R (.error e) (.error e')

namespace Agree

variable {γ δ : Type} {R : α → β → Prop} {R' : γ → δ → Prop}
variable {x : Except Failure α} {y : Except Failure β}

theorem refl {R : α → α → Prop} (hR : ∀ a, R a a) (x : Except Failure α) : Agree R x x := by
  cases x with
  | ok a => exact .ok (hR a)
  | error e => exact .error rfl

theorem mono {R' : α → β → Prop} (h : Agree R x y) (hR : ∀ a b, R a b → R' a b) : Agree R' x y := by
  cases h with
  | ok hab => exact .ok (hR _ _ hab)
  | error he => exact .error he

/-- What agrees, continued in ways that agree on related results. -/
theorem bind (h : Agree R x y) {f : α → Except Failure γ} {g : β → Except Failure δ}
    (hfg : ∀ a b, R a b → Agree R' (f a) (g b)) : Agree R' (x >>= f) (y >>= g) := by
  cases h with
  | ok hab => exact hfg _ _ hab
  | error he => exact .error he

/-- One computation, continued in two ways that agree on its result. -/
theorem bind_left {f : α → Except Failure γ} {g : α → Except Failure δ}
    (hfg : ∀ a, x = .ok a → Agree R' (f a) (g a)) : Agree R' (x >>= f) (x >>= g) := by
  cases x with
  | ok a => exact hfg a rfl
  | error e => exact .error rfl

end Agree

end AggSig
