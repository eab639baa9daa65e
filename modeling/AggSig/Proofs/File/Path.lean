/-
  Paths and the names in them.

  A path is cut at its slashes into names, which are not empty and have no slash in them
  (`isName_of_mem_names`), and such names are found again in the path that is made of them
  (`names_ofNames`).  So the normal form of a path, without needless slashes and dots, has the names of the
  path but for the dots, and starts where the path does.

  The normal form is refused as no path can be only where the path is refused as well, unless that is too
  long (`check_of_check_normal`).
-/
import AggSig.FileTree
import Mathlib.Data.List.Basic

namespace AggSig.Path

/-- What a path can be cut into. -/
structure IsName (name : String) : Prop where
  ne_empty : name ≠ ""
  no_slash : '/' ∉ name.toList

/-- The path without empty names and the dots that stay where they are, and with no slash at its end. -/
def normal (path : String) : String := ofNames (isAbsolute path) (plainNames path)

/-- A path that may lead to a file as it stands: it does not end in a slash or a dot, and is not too long. -/
structure NamesFile (path : String) : Prop where
  no_slash : endsInSlash path = false
  no_dot : (names path).getLast? ≠ some "."
  length_le : path.utf8ByteSize ≤ longest

/-! ## Pieces between slashes -/

section Pieces

variable {α : Type} [DecidableEq α] {a b : α}

/-- The pieces do not have in them what they are cut at. -/
theorem not_mem_of_mem_splitOn {as piece : List α} (h : piece ∈ as.splitOn a) : a ∉ piece := by
  -- on the list: a separator starts a new piece, and what is none joins the first one
  induction as generalizing piece with
  | nil =>
    rw [List.splitOn_nil, List.mem_singleton] at h
    rw [h]
    exact List.not_mem_nil
  | cons b as ih =>
    rw [List.splitOn_cons_eq_if_modifyHead] at h
    split at h
    · rcases List.mem_cons.mp h with rfl | h
      · exact List.not_mem_nil
      · exact ih h
    · next hb =>
      obtain ⟨first, rest, hpieces⟩ := List.exists_cons_of_ne_nil (List.splitOn_ne_nil a as)
      rw [hpieces] at h ih
      rcases List.mem_cons.mp h with rfl | h
      · have hne : a ≠ b := fun hab => hb (beq_iff_eq.mpr hab.symm)
        exact List.not_mem_cons_of_ne_of_not_mem hne (ih List.mem_cons_self)
      · exact ih (List.mem_cons_of_mem _ h)

/-- All else is in the pieces. -/
theorem mem_intercalate_iff (hb : b ≠ a) (pieces : List (List α)) :
    b ∈ [a].intercalate pieces ↔ ∃ piece ∈ pieces, b ∈ piece := by
  -- on the pieces, with the separator between one and the next
  induction pieces with
  | nil => simp
  | cons first rest ih =>
    cases rest with
    | nil => simp
    | cons second rest =>
      rw [List.intercalate_cons_cons, List.mem_append, List.mem_append, ih, List.mem_singleton,
        List.exists_mem_cons_iff (l := second :: rest)]
      tauto

end Pieces

/-! ## The names in a path -/

/-- A name in a path is not empty and has no slash. -/
theorem isName_of_mem_names {path name : String} (h : name ∈ names path) : IsName name := by
  obtain ⟨hpiece, hne⟩ := List.mem_filter.mp h
  obtain ⟨piece, hmem, rfl⟩ := List.mem_map.mp hpiece
  refine ⟨of_decide_eq_true hne, ?_⟩
  rw [String.toList_ofList]
  exact not_mem_of_mem_splitOn hmem

theorem isName_of_mem_plainNames {path name : String} (h : name ∈ plainNames path) : IsName name :=
  isName_of_mem_names (List.mem_filter.mp h).1

/-- What is no slash is in a path exactly if it is in one of its names. -/
theorem mem_toList_iff {path : String} {c : Char} (hc : c ≠ '/') :
    c ∈ path.toList ↔ ∃ name ∈ names path, c ∈ name.toList := by
  have hcut : path.toList = ['/'].intercalate (path.toList.splitOn '/') :=
    (List.intercalate_splitOn '/').symm
  rw [hcut, mem_intercalate_iff hc]
  constructor
  · rintro ⟨piece, hpiece, hmem⟩
    have hne : String.ofList piece ≠ "" := fun hempty =>
      List.ne_nil_of_mem hmem (String.ofList_eq_empty_iff.mp hempty)
    exact ⟨String.ofList piece,
      List.mem_filter.mpr ⟨List.mem_map_of_mem hpiece, decide_eq_true hne⟩, by rwa [String.toList_ofList]⟩
  · rintro ⟨name, hname, hmem⟩
    obtain ⟨piece, hpiece, rfl⟩ := List.mem_map.mp (List.mem_filter.mp hname).1
    exact ⟨piece, hpiece, by rwa [String.toList_ofList] at hmem⟩

variable {ns : List String}

/-- A slash at the front is not part of any name. -/
theorem names_slash_append (path : String) : names ("/" ++ path) = names path := by
  have hslash : ("/" ++ path).toList = '/' :: path.toList := String.toList_append
  rw [names, hslash, List.splitOn_cons_eq_if_modifyHead, if_pos (beq_self_eq_true _), List.map_cons]
  rfl

/-- Names joined by slashes are found again. -/
theorem names_intercalate (hne : ns ≠ []) (h : ∀ name ∈ ns, IsName name) :
    names ("/".intercalate ns) = ns := by
  have hpieces : ("/".intercalate ns).toList.splitOn '/' = ns.map String.toList := by
    rw [String.toList_intercalate]
    refine List.splitOn_intercalate '/' (fun piece hpiece => ?_) (by rwa [Ne, List.map_eq_nil_iff])
    obtain ⟨name, hname, rfl⟩ := List.mem_map.mp hpiece
    exact (h name hname).no_slash
  have hback : (ns.map String.toList).map String.ofList = ns := by
    rw [List.map_map]
    exact (List.map_congr_left fun name _ => String.ofList_toList).trans (List.map_id ns)
  rw [names, hpieces, hback]
  exact List.filter_eq_self.mpr fun name hname => decide_eq_true (h name hname).ne_empty

/-- The names that a path is made of are the names in it. -/
theorem names_ofNames (absolute : Bool) (hne : ns ≠ []) (h : ∀ name ∈ ns, IsName name) :
    names (ofNames absolute ns) = ns := by
  cases absolute with
  | true => exact (names_slash_append _).trans (names_intercalate hne h)
  | false =>
    rw [ofNames, if_neg (by decide), if_neg (by rwa [List.isEmpty_iff])]
    exact names_intercalate hne h

/-- A path that is made of names starts where it is said to start. -/
theorem isAbsolute_ofNames (absolute : Bool) (hne : ns ≠ []) (h : ∀ name ∈ ns, IsName name) :
    isAbsolute (ofNames absolute ns) = absolute := by
  cases absolute with
  | true =>
    have hslash : ("/" ++ "/".intercalate ns).toList = '/' :: ("/".intercalate ns).toList :=
      String.toList_append
    rw [isAbsolute, ofNames, if_pos rfl, hslash]
    rfl
  | false =>
    -- the first name is in front, and starts with something that is no slash
    obtain ⟨name, rest, rfl⟩ := List.exists_cons_of_ne_nil hne
    obtain ⟨hname, hslash⟩ := h name List.mem_cons_self
    obtain ⟨c, cs, hchars⟩ := List.exists_cons_of_ne_nil (mt String.toList_eq_nil_iff.mp hname)
    have hhead : ("/".intercalate (name :: rest)).toList.head? = some c := by
      rw [String.toList_intercalate, List.map_cons, hchars]
      cases rest with
      | nil => rfl
      | cons second rest => rfl
    rw [hchars] at hslash
    have hc : c ≠ '/' := fun hc => hslash (hc ▸ List.mem_cons_self)
    rw [isAbsolute, ofNames, if_neg (by decide), if_neg (by simp), hhead]
    simpa using hc

/-! ## The normal form -/

section Normal

variable {path : String} (hne : plainNames path ≠ [])
include hne

/-- The normal form has the same names, but for the dots. -/
theorem names_normal : names (normal path) = plainNames path :=
  names_ofNames _ hne fun _ => isName_of_mem_plainNames

theorem isAbsolute_normal : isAbsolute (normal path) = isAbsolute path :=
  isAbsolute_ofNames _ hne fun _ => isName_of_mem_plainNames

end Normal

/-- A path can be looked up if it has no zero character, is not empty and is not too long. -/
theorem check_eq_ok_iff {path : String} :
    check path = .ok () ↔
      (∀ c ∈ path.toList, c.toNat ≠ 0) ∧ path ≠ "" ∧ path.utf8ByteSize ≤ longest := by
  rw [check]
  -- the three conditions in the order of the check
  split
  · next hzero =>
    obtain ⟨c, hc, hcode⟩ := List.any_eq_true.mp hzero
    exact iff_of_false (fun h => nomatch h) fun h => h.1 c hc (of_decide_eq_true hcode)
  · next hzero =>
    have hnone : ∀ c ∈ path.toList, c.toNat ≠ 0 := fun c hc hcode =>
      hzero (List.any_eq_true.mpr ⟨c, hc, decide_eq_true hcode⟩)
    by_cases hempty : path = ""
    · rw [if_pos hempty]
      exact iff_of_false (fun h => nomatch h) fun h => h.2.1 hempty
    · rw [if_neg hempty]
      by_cases hlong : longest < path.utf8ByteSize
      · rw [if_pos hlong]
        exact iff_of_false (fun h => nomatch h) fun h => Nat.not_lt.mpr h.2.2 hlong
      · rw [if_neg hlong]
        exact iff_of_true rfl ⟨hnone, hempty, Nat.not_lt.mp hlong⟩

/-- A path that is not too long is refused as no path can be only if its normal form is. -/
theorem check_of_check_normal {path : String} (hne : plainNames path ≠ [])
    (hlength : path.utf8ByteSize ≤ longest) (h : check (normal path) = .ok ()) : check path = .ok () := by
  obtain ⟨hzero, -, -⟩ := check_eq_ok_iff.mp h
  refine check_eq_ok_iff.mpr ⟨fun c hc hcode => ?_, ?_, hlength⟩
  · have hslash : c ≠ '/' := fun hc => absurd (hc ▸ hcode) (by decide)
    obtain ⟨name, hname, hmem⟩ := (mem_toList_iff hslash).mp hc
    -- a dot has no zero in it
    have hdot : name ≠ "." := by
      rintro rfl
      rw [List.mem_singleton.mp hmem] at hcode
      exact absurd hcode (by decide)
    have hplain : name ∈ names (normal path) := by
      rw [names_normal hne]
      exact List.mem_filter.mpr ⟨hname, decide_eq_true hdot⟩
    exact hzero c ((mem_toList_iff hslash).mpr ⟨name, hplain, hmem⟩) hcode
  · rintro rfl
    exact hne rfl

end AggSig.Path
