/-
  What writing a file changes in a tree.

  Names lead to the same location in every tree in which they lead anywhere (`eq_follow_of_walk`), and they
  still do if no directory is lost (`walk_of_directories`).  Dots in front of other names make no difference
  (`walk_plain`).

  A tree grows above a path if all that is new are directories that the names in front lead to (`Grown`).
  Making directories does no more than that, whether it succeeds or fails (`grown_makeDirectories`).  So
  writing a file fails with a tree that has grown (`grown_of_writeBelow`), or it puts the file at its
  location in such a tree (`writeBelow_eq_ok`), where it is found again (`writeBelow_spec`).

  On reading the path is taken as it stands, and some paths lead to no file whatever there is in the tree
  (`namesFile_of_read`).
-/
import AggSig.Proofs.File.Path
import AggSig.Proofs.Outcome

namespace AggSig.FileTree

variable {t t' : FileTree} {location : Location}

/-! ## Entries -/

theorem entryAt?_root (t : FileTree) : t.entryAt? [] = some (.directory directoryMode) := if_pos rfl

theorem ne_root_of_entryAt? (h : ∀ mode, t.entryAt? location ≠ some (.directory mode)) : location ≠ [] := by
  rintro rfl
  exact h _ t.entryAt?_root

/-- What is put at a location is there, and nothing else has changed. -/
theorem entryAt?_put (hroot : location ≠ []) (e : Entry) (l : Location) :
    (t.put location e).entryAt? l = if l = location then some e else t.entryAt? l := by
  rw [entryAt?, put]
  by_cases hl : l = location
  · rw [if_pos hl, hl, if_neg hroot, List.find?_cons_of_pos (by simp)]
    rfl
  · have hothers : ∀ entry : Location × Entry,
        (decide (entry.1 ≠ location) = true ∧ decide (entry.1 = l) = true) = (entry.1 = l) := by
      intro entry
      rw [decide_eq_true_iff, decide_eq_true_iff, and_iff_right_of_imp fun hentry => hentry ▸ hl]
    rw [if_neg hl, entryAt?, List.find?_cons_of_neg (by simpa using Ne.symm hl), List.find?_filter]
    simp only [hothers]

/-! ## Walking -/

/-- Where a name leads to, if it leads anywhere. -/
def next (location : Location) (name : String) : Location :=
  if name = "." then location else if name = ".." then location.dropLast else location ++ [name]

/-- Where names lead to, if they lead anywhere. -/
def follow (location : Location) (names : List String) : Location := names.foldl next location

/-- What a name leads to is told from the location alone. -/
theorem eq_next_of_enter {name : String} {l : Location} (h : enter location name = .ok l) :
    l = next location name := by
  rw [enter] at h
  rw [next]
  -- a dot stays, two dots go up, and any other name goes down
  split at h
  · next hdot => rw [if_pos hdot]; exact (Except.ok.inj h).symm
  · next hdot =>
    rw [if_neg hdot]
    split at h
    · next hdots => rw [if_pos hdots]; exact (Except.ok.inj h).symm
    · next hdots =>
      rw [if_neg hdots]
      split at h
      · cases h
      · exact (Except.ok.inj h).symm

/-- Names are followed through directories, one by one. -/
theorem walk_cons_eq_ok_iff {name : String} {names : List String} {l : Location} :
    t.walk location (name :: names) = .ok l ↔
      ∃ mode k, t.entryAt? location = some (.directory mode) ∧ enter location name = .ok k ∧
        t.walk k names = .ok l := by
  rw [walk]
  cases hentry : t.entryAt? location with
  | none => simp
  | some e =>
    cases e with
    | file content mode => simp
    | directory mode => simp [bind_eq_ok]

/-- Where names lead to does not depend on the tree. -/
theorem eq_follow_of_walk {names : List String} {l : Location} (h : t.walk location names = .ok l) :
    l = follow location names := by
  induction names generalizing location with
  | nil => exact (Except.ok.inj h).symm
  | cons name names ih =>
    obtain ⟨_, k, -, henter, hwalk⟩ := walk_cons_eq_ok_iff.mp h
    rw [follow, List.foldl_cons, ← eq_next_of_enter henter]
    exact ih hwalk

/-- Where no directory is lost, names still lead where they led. -/
theorem walk_of_directories
    (hkept : ∀ l mode, t.entryAt? l = some (.directory mode) → t'.entryAt? l = some (.directory mode))
    {names : List String} {l : Location} (h : t.walk location names = .ok l) :
    t'.walk location names = .ok l := by
  induction names generalizing location with
  | nil => exact h
  | cons name names ih =>
    obtain ⟨mode, k, hentry, henter, hwalk⟩ := walk_cons_eq_ok_iff.mp h
    exact walk_cons_eq_ok_iff.mpr ⟨mode, k, hkept _ _ hentry, henter, ih hwalk⟩

/-- Dots make no difference in front of other names. -/
theorem walk_plain {names : List String} (hlast : names.getLast? ≠ some ".") :
    t.walk location (names.filter (· ≠ ".")) = t.walk location names := by
  induction names generalizing location with
  | nil => rfl
  | cons name names ih =>
    by_cases hname : name = "."
    · subst hname
      -- the name after the dot is looked up in the same directory
      cases names with
      | nil => exact absurd rfl hlast
      | cons second rest =>
        rw [List.getLast?_cons_cons] at hlast
        rw [List.filter_cons_of_neg (by simp), ih hlast]
        cases hentry : t.entryAt? location with
        | none => rw [walk, walk, hentry]
        | some e =>
          cases e with
          | file content mode => rw [walk, walk, hentry]
          | directory mode =>
            conv_rhs => rw [walk, hentry]
            rfl
    · have hrest : names.getLast? ≠ some "." := by
        cases names with
        | nil => exact fun h => nomatch h
        | cons second rest => rwa [List.getLast?_cons_cons] at hlast
      rw [List.filter_cons_of_pos (by simpa using hname), walk, walk]
      simp only [ih hrest]

/-- A dot at the end leads to a directory. -/
theorem exists_directory_of_walk_dot {names : List String} {l : Location}
    (h : t.walk location (names ++ ["."]) = .ok l) : ∃ mode, t.entryAt? l = some (.directory mode) := by
  induction names generalizing location with
  | nil =>
    obtain ⟨mode, k, hdirectory, henter, hend⟩ := walk_cons_eq_ok_iff.mp h
    cases henter
    cases hend
    exact ⟨mode, hdirectory⟩
  | cons name names ih =>
    obtain ⟨_, _, -, -, hwalk⟩ := walk_cons_eq_ok_iff.mp h
    exact ih hwalk

/-! ## Paths -/

/-- A path is located if it passes the check and its names lead somewhere. -/
theorem locate_eq_ok_iff {path : String} {l : Location} :
    t.locate path = .ok l ↔
      Path.check path = .ok () ∧ t.walk (t.start path) (Path.names path) = .ok l := by
  rw [locate, bind_eq_ok]
  exact ⟨fun ⟨_, hcheck, hwalk⟩ => ⟨hcheck, hwalk⟩, fun ⟨hcheck, hwalk⟩ => ⟨(), hcheck, hwalk⟩⟩

/-- An entry is found where its path leads; a slash at the end is for directories only. -/
theorem entry_eq_ok_iff {path : String} {e : Entry} :
    t.entry path = .ok e ↔
      ∃ l, t.locate path = .ok l ∧ t.entryAt? l = some e ∧
        (Path.endsInSlash path = true → e.isDirectory = true) := by
  rw [entry, bind_eq_ok]
  refine exists_congr fun l => and_congr_right fun _ => ?_
  cases t.entryAt? l with
  | none => exact iff_of_false (fun h => nomatch h) fun h => nomatch h.1
  | some found =>
    -- a slash at the end asks for a directory
    by_cases hrefused : Path.endsInSlash path = true ∧ found.isDirectory = false
    · simp only [if_pos hrefused]
      refine iff_of_false (fun h => nomatch h) ?_
      rintro ⟨heq, hdirectory⟩
      cases heq
      exact absurd (hrefused.2.symm.trans (hdirectory hrefused.1)) (by decide)
    · simp only [if_neg hrefused]
      constructor
      · intro h
        cases h
        exact ⟨rfl, fun hslash => by simpa [hslash] using hrefused⟩
      · rintro ⟨heq, -⟩
        cases heq
        rfl

/-- What is read is the content of a file. -/
theorem read_eq_ok_iff {path : String} {content : Bytes} :
    t.read path = .ok content ↔ ∃ mode, t.entry path = .ok (.file content mode) := by
  rw [read, bind_eq_ok]
  constructor
  · rintro ⟨e, he, h⟩
    cases e with
    | directory mode => cases h
    | file found mode =>
      cases h
      exact ⟨mode, he⟩
  · rintro ⟨mode, he⟩
    exact ⟨_, he, rfl⟩

/-- Only a path that may lead to a file is read. -/
theorem namesFile_of_read {path : String} {content : Bytes} (h : t.read path = .ok content) :
    Path.NamesFile path := by
  obtain ⟨mode, he⟩ := read_eq_ok_iff.mp h
  obtain ⟨l, hlocate, hentry, hslash⟩ := entry_eq_ok_iff.mp he
  obtain ⟨hcheck, hwalk⟩ := locate_eq_ok_iff.mp hlocate
  refine ⟨?_, fun hlast => ?_, (Path.check_eq_ok_iff.mp hcheck).2.2⟩
  · cases hends : Path.endsInSlash path with
    | false => rfl
    | true => exact nomatch hslash hends
  · obtain ⟨names, hnames⟩ := List.getLast?_eq_some_iff.mp hlast
    rw [hnames] at hwalk
    obtain ⟨m, hdirectory⟩ := exists_directory_of_walk_dot hwalk
    rw [hentry] at hdirectory
    cases hdirectory

/-! ## Growth -/

/-- At a location nothing has changed, or there is a new directory that is one of those given. -/
def Kept (above : Location → Prop) (t t' : FileTree) (l : Location) : Prop :=
  t'.entryAt? l = t.entryAt? l ∨
    t.entryAt? l = none ∧ t'.entryAt? l = some (.directory directoryMode) ∧ above l

/-- All that is new are directories that are among those given. -/
structure Grown (above : Location → Prop) (t t' : FileTree) : Prop where
  working_eq : t'.working = t.working
  kept : ∀ l, Kept above t t' l

namespace Grown

variable {above above' : Location → Prop} {t'' : FileTree}

theorem refl (above : Location → Prop) (t : FileTree) : Grown above t t := ⟨rfl, fun _ => .inl rfl⟩

theorem mono (h : Grown above t t') (habove : ∀ l, above l → above' l) : Grown above' t t' :=
  ⟨h.working_eq, fun l => (h.kept l).imp_right fun ⟨hnone, hnew, hl⟩ => ⟨hnone, hnew, habove l hl⟩⟩

/-- What has grown twice has grown. -/
theorem trans (h : Grown above t t') (h' : Grown above t' t'') : Grown above t t'' := by
  refine ⟨h'.working_eq.trans h.working_eq, fun l => ?_⟩
  rcases h.kept l with hsame | ⟨hnone, hnew, hl⟩
  · rcases h'.kept l with hsame' | ⟨hnone', hnew', hl'⟩
    · exact .inl (hsame'.trans hsame)
    · exact .inr ⟨hsame.symm.trans hnone', hnew', hl'⟩
  · rcases h'.kept l with hsame' | ⟨hnone', -, -⟩
    · exact .inr ⟨hnone, hsame'.trans hnew, hl⟩
    · rw [hnew] at hnone'
      cases hnone'

end Grown

/-! ## Making directories -/

/-- Where relative and absolute paths start. -/
def origin (t : FileTree) (absolute : Bool) : Location := if absolute then [] else t.working

/-- What the names lead to, or some of them from the first on. -/
def Above (origin : Location) (names : List String) (l : Location) : Prop :=
  ∃ front, front <+: names ∧ follow origin front = l

theorem Above.mono {origin l : Location} {names more : List String} (h : Above origin names l)
    (hmore : names <+: more) : Above origin more l := by
  obtain ⟨front, hfront, hl⟩ := h
  exact ⟨front, hfront.trans hmore, hl⟩

/-- A directory is made at one location, where nothing was. -/
theorem grown_makeDirectory {path : String} (h : t.makeDirectory path = .ok t') :
    Grown (· = follow (t.start path) (Path.names path)) t t' := by
  rw [makeDirectory] at h
  obtain ⟨l, hl, h⟩ := bind_eq_ok.mp h
  cases hentry : t.entryAt? l with
  | some e =>
    rw [hentry] at h
    cases h
  | none =>
    rw [hentry] at h
    cases h
    -- the root is there already, so that the new entry is found
    have hroot : l ≠ [] := ne_root_of_entryAt? fun mode hmode => by rw [hentry] at hmode; cases hmode
    refine ⟨rfl, fun k => ?_⟩
    rw [Kept, entryAt?_put hroot]
    by_cases hk : k = l
    · rw [if_pos hk, hk]
      exact .inr ⟨hentry, rfl, eq_follow_of_walk (locate_eq_ok_iff.mp hl).2⟩
    · rw [if_neg hk]
      exact .inl rfl

/-- Made under joined names, a directory is where some of them lead to, from the first on. -/
theorem grown_makeDirectory_ofNames {absolute : Bool} {names : List String} (hne : names ≠ [])
    (hnames : ∀ name ∈ names, Path.IsName name)
    (h : t.makeDirectory (Path.ofNames absolute names) = .ok t') :
    Grown (Above (t.origin absolute) names) t t' := by
  have hstart : t.start (Path.ofNames absolute names) = t.origin absolute := by
    rw [start, Path.isAbsolute_ofNames absolute hne hnames, origin]
  have hgrown := grown_makeDirectory h
  rw [hstart, Path.names_ofNames absolute hne hnames] at hgrown
  exact hgrown.mono fun l hl => ⟨names, List.prefix_rfl, hl.symm⟩

/-- To look whether a directory is there changes nothing. -/
theorem unlessDirectory_snd (path : String) (misuse : Misuse) : (t.unlessDirectory path misuse).2 = t := by
  rw [unlessDirectory]
  split <;> rfl

/-- Making directories adds those that the names lead to, and does nothing else even if it fails. -/
theorem grown_makeDirectories (absolute : Bool) {reversed : List String}
    (hnames : ∀ name ∈ reversed, Path.IsName name) (t : FileTree) :
    Grown (Above (t.origin absolute) reversed.reverse) t (t.makeDirectories absolute reversed).2 := by
  induction reversed generalizing t with
  | nil => exact .refl _ t
  | cons name above ih =>
    have hvalid : ∀ n ∈ (name :: above).reverse, Path.IsName n := fun n hn =>
      hnames n (List.mem_reverse.mp hn)
    have hmake {t t' : FileTree}
        (h : t.makeDirectory (Path.ofNames absolute (name :: above).reverse) = .ok t') :
        Grown (Above (t.origin absolute) (name :: above).reverse) t t' :=
      grown_makeDirectory_ofNames (by simp) hvalid h
    have hmore : above.reverse <+: (name :: above).reverse := by
      rw [List.reverse_cons]
      exact List.prefix_append _ _
    have hgrown := (ih (fun n hn => hnames n (List.mem_cons_of_mem _ hn)) t).mono fun l hl => hl.mono hmore
    rw [makeDirectories]
    split
    · next hmade => exact hmake hmade
    · -- the directories above are made first, then the directory itself
      split
      · next hfail => rwa [hfail] at hgrown
      · next t₁ hmade =>
        rw [hmade] at hgrown
        have horigin : t₁.origin absolute = t.origin absolute := by rw [origin, origin, hgrown.working_eq]
        split
        · next hlast => exact hgrown.trans (horigin ▸ hmake hlast)
        · rwa [unlessDirectory_snd]
    · rw [unlessDirectory_snd]
      exact .refl _ t

/-! ## Writing files -/

/-- A file is written where its path leads, unless there is a directory. -/
theorem write_eq_ok {path : String} {content : Bytes} {mode : Nat}
    (h : t.write path content mode = .ok t') :
    ∃ l, Path.endsInSlash path = false ∧ t.locate path = .ok l ∧
      (∀ m, t.entryAt? l ≠ some (.directory m)) ∧
      t' = t.put l (.file content (permissions mode)) := by
  rw [write] at h
  obtain ⟨l, hplace, h⟩ := bind_eq_ok.mp h
  rw [place] at hplace
  -- a path with a slash at the end is refused whatever is there
  cases hslash : Path.endsInSlash path with
  | true =>
    rw [if_pos hslash] at hplace
    obtain ⟨_, -, hplace⟩ := bind_eq_ok.mp hplace
    obtain ⟨_, -, hplace⟩ := bind_eq_ok.mp hplace
    cases hplace
  | false =>
    rw [if_neg (by rw [hslash]; decide)] at hplace
    refine ⟨l, rfl, hplace, ?_⟩
    cases hentry : t.entryAt? l with
    | none =>
      rw [hentry] at h
      exact ⟨fun m hm => (by cases hm), (Except.ok.inj h).symm⟩
    | some e =>
      rw [hentry] at h
      cases e with
      | directory m => cases h
      | file _ _ => exact ⟨fun m hm => (by cases hm), (Except.ok.inj h).symm⟩

/-- Where no name is left, the path leads to a directory. -/
theorem plainNames_ne_nil {path : String} {content : Bytes} {mode : Nat}
    (h : t.write (Path.normal path) content mode = .ok t') : Path.plainNames path ≠ [] := by
  -- with no names the path is the root or a dot, and neither is a file
  intro hnil
  obtain ⟨l, hslash, hl, hentry, -⟩ := write_eq_ok h
  rw [Path.normal, hnil] at hslash hl
  cases habsolute : Path.isAbsolute path with
  | true =>
    rw [habsolute] at hslash
    exact absurd hslash (by decide)
  | false =>
    rw [habsolute] at hl
    have hnames : Path.names (Path.ofNames false []) = [] ++ ["."] := by decide
    obtain ⟨-, hwalk⟩ := locate_eq_ok_iff.mp hl
    rw [hnames] at hwalk
    obtain ⟨m, hdirectory⟩ := exists_directory_of_walk_dot hwalk
    exact hentry m hdirectory

/-- The directories that may be made for a path are those that its names in front of the last lead to. -/
theorem grown_makeDirectories_above (t : FileTree) (path : String) :
    Grown (Above (t.start path) (Path.plainNames path).dropLast) t
      (t.makeDirectories (Path.isAbsolute path) (Path.plainNames path).reverse.tail).2 := by
  have hnames : ∀ name ∈ (Path.plainNames path).reverse.tail, Path.IsName name := fun name hname =>
    Path.isName_of_mem_plainNames (List.mem_reverse.mp (List.mem_of_mem_tail hname))
  have hgrown := grown_makeDirectories (Path.isAbsolute path) hnames t
  rw [List.tail_reverse] at hgrown ⊢
  rwa [List.reverse_reverse] at hgrown

variable {path : String} {content : Bytes} {mode : Nat}

/-- What fails has made directories at most. -/
theorem grown_of_writeBelow {misuse : Misuse} (h : t.writeBelow path content mode = (.error misuse, t')) :
    Grown (Above (t.start path) (Path.plainNames path).dropLast) t t' := by
  have hgrown := grown_makeDirectories_above t path
  rw [writeBelow] at h
  split at h
  · next hfail =>
    rw [hfail] at hgrown
    cases h
    exact hgrown
  · next hmade =>
    rw [hmade] at hgrown
    split at h
    · cases h
    · cases h
      exact hgrown

/-- What succeeds has made directories at most and then written the file. -/
theorem writeBelow_eq_ok (h : t.writeBelow path content mode = (.ok (), t')) :
    ∃ t₁, Grown (Above (t.start path) (Path.plainNames path).dropLast) t t₁ ∧
      t₁.write (Path.normal path) content mode = .ok t' := by
  have hgrown := grown_makeDirectories_above t path
  rw [writeBelow] at h
  split at h
  · cases h
  · next t₁ hmade =>
    rw [hmade] at hgrown
    split at h
    · next hwritten =>
      cases h
      exact ⟨t₁, hgrown, hwritten⟩
    · cases h

/-! ## Finding the file again -/

/-- A path that may lead to a file leads where its normal form does. -/
theorem locate_of_locate_normal {l : Location} (hne : Path.plainNames path ≠ [])
    (hfile : Path.NamesFile path) (h : t.locate (Path.normal path) = .ok l) : t.locate path = .ok l := by
  obtain ⟨hcheck, hwalk⟩ := locate_eq_ok_iff.mp h
  refine locate_eq_ok_iff.mpr ⟨Path.check_of_check_normal hne hfile.length_le hcheck, ?_⟩
  rw [Path.names_normal hne, start, Path.isAbsolute_normal hne] at hwalk
  rw [← walk_plain hfile.no_dot]
  exact hwalk

/-- All paths lead where they led once something has taken the place of what is no directory. -/
theorem locate_put {e : Entry} {l : Location} (hentry : ∀ m, t.entryAt? location ≠ some (.directory m))
    (h : t.locate path = .ok l) : (t.put location e).locate path = .ok l := by
  obtain ⟨hcheck, hwalk⟩ := locate_eq_ok_iff.mp h
  refine locate_eq_ok_iff.mpr ⟨hcheck, walk_of_directories (fun k m hk => ?_) hwalk⟩
  have hne : k ≠ location := fun hkl => hentry m (hkl ▸ hk)
  rwa [entryAt?_put (ne_root_of_entryAt? hentry), if_neg hne]

/-- A file that has been written is where the path leads, and it is found there under the normal form of the
    path and under the path itself, if that may lead to a file.  All else is as it was, but for new
    directories above the file. -/
theorem writeBelow_spec (h : t.writeBelow path content mode = (.ok (), t')) :
    t'.entryAt? (follow (t.start path) (Path.plainNames path)) =
        some (.file content (permissions mode)) ∧
      t'.entry (Path.normal path) = .ok (.file content (permissions mode)) ∧
      (Path.NamesFile path → t'.entry path = .ok (.file content (permissions mode))) ∧
      ∀ l ≠ follow (t.start path) (Path.plainNames path),
        Kept (Above (t.start path) (Path.plainNames path).dropLast) t t' l := by
  obtain ⟨t₁, hgrown, hwrite⟩ := writeBelow_eq_ok h
  have hne := plainNames_ne_nil hwrite
  obtain ⟨l, hslash, hlocate, hentry, rfl⟩ := write_eq_ok hwrite
  have hl : l = follow (t.start path) (Path.plainNames path) := by
    have hstart : t₁.start (Path.normal path) = t.start path := by
      rw [start, start, Path.isAbsolute_normal hne, hgrown.working_eq]
    rw [eq_follow_of_walk (locate_eq_ok_iff.mp hlocate).2, hstart, Path.names_normal hne]
  have hput := entryAt?_put (t := t₁) (ne_root_of_entryAt? hentry) (.file content (permissions mode))
  have hfound : (t₁.put l (.file content (permissions mode))).entryAt? l =
      some (.file content (permissions mode)) := by rw [hput, if_pos rfl]
  have hopen {p : String} (hp : t₁.locate p = .ok l) (hends : Path.endsInSlash p = false) :
      (t₁.put l (.file content (permissions mode))).entry p = .ok (.file content (permissions mode)) :=
    entry_eq_ok_iff.mpr ⟨l, locate_put hentry hp, hfound, fun h => nomatch hends.symm.trans h⟩
  rw [← hl]
  refine ⟨hfound, hopen hlocate hslash, fun hfile => ?_, fun k hk => ?_⟩
  · exact hopen (locate_of_locate_normal hne hfile hlocate) hfile.no_slash
  · rw [Kept, hput, if_neg hk]
    exact hgrown.kept k

end AggSig.FileTree
