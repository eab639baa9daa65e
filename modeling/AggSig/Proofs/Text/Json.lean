/-
  The texts that are read as a list of integers.

  `SpellsList` is the grammar: brackets around integers with commas between them, and white space before,
  between and after all of these.  A document is read in two steps, and each of them is characterised for
  itself.  A text is cut into the tokens of a list exactly if it spells the list (`tokens?_eq_some_iff`), and
  only those tokens are put together as the list (`ofTokens?_eq_list_iff`).  Composed, a text is read as a
  list of integers exactly if it spells it (`parse?_eq_list_iff`).

  The text that a list of numbers is written as spells it (`spellsList_renderNumbers`).
-/
import AggSig.Proofs.Text.Numeral

namespace AggSig.Json

/-! ## The grammar -/

/-- White space, or nothing. -/
def Blank (cs : List Char) : Prop := ∀ c ∈ cs, c = ' ' ∨ c = '\t' ∨ c = '\n' ∨ c = '\r'

/-- The text behind the opening bracket of a list of integers. -/
inductive SpellsItems : List Int → List Char → Prop
  | none {before after : List Char} (hbefore : Blank before) (hafter : Blank after) :
    SpellsItems [] (before ++ ']' :: after)
  | last {n : Int} {before literal between after : List Char} (hbefore : Blank before)
    (hliteral : SpellsInteger n literal) (hbetween : Blank between) (hafter : Blank after) :
    SpellsItems [n] (before ++ (literal ++ (between ++ ']' :: after)))
  | more {n m : Int} {ns : List Int} {before literal between rest : List Char} (hbefore : Blank before)
    (hliteral : SpellsInteger n literal) (hbetween : Blank between)
    (hrest : SpellsItems (m :: ns) rest) :
    SpellsItems (n :: m :: ns) (before ++ (literal ++ (between ++ ',' :: rest)))

/-- The text is a list of integers. -/
def SpellsList (ns : List Int) (text : List Char) : Prop :=
  ∃ before rest, Blank before ∧ SpellsItems ns rest ∧ text = before ++ '[' :: rest

/-! ## Tokens -/

/-- The tokens behind the opening bracket of a list of integers. -/
def itemTokens : List Int → List Token
  | [] => [.closeList]
  | [n] => [.integer n, .closeList]
  | n :: m :: ns => .integer n :: .comma :: itemTokens (m :: ns)

theorem isSpace_eq_true_iff {c : Char} :
    isSpace c = true ↔ c = ' ' ∨ c = '\t' ∨ c = '\n' ∨ c = '\r' := by
  simp only [isSpace, Bool.or_eq_true, decide_eq_true_iff, or_assoc]

theorem blank_takeWhile (cs : List Char) : Blank (cs.takeWhile isSpace) :=
  fun _ h => isSpace_eq_true_iff.mp (List.mem_takeWhile_imp h)

theorem Blank.dropWhile_append {before : List Char} (h : Blank before) (cs : List Char) :
    (before ++ cs).dropWhile isSpace = cs.dropWhile isSpace :=
  List.dropWhile_append_of_pos fun c hc => isSpace_eq_true_iff.mpr (h c hc)

/-- No token starts with white space. -/
theorem token?_of_isSpace {c : Char} (h : isSpace c = true) (cs : List Char) : token? (c :: cs) = none := by
  rcases isSpace_eq_true_iff.mp h with rfl | rfl | rfl | rfl <;> rfl

/-- What a token says about the text that it was read from, and the rest. -/
def Token.ReadFrom (cs rest : List Char) : Token → Prop
  | .integer n => ∃ literal, SpellsInteger n literal ∧ cs = literal ++ rest
  | .comma => cs = ',' :: rest
  | .openList => cs = '[' :: rest
  | .closeList => cs = ']' :: rest
  | _ => True

/-- A name is not looked into. -/
theorem name?_eq_some {cs rest : List Char} {t : Token} (h : name? cs = some (t, rest)) : t = .plain := by
  obtain ⟨_, _, hpair⟩ := Option.map_eq_some_iff.mp h
  exact (Prod.mk.inj hpair).1.symm

/-- A token is spelled by what it is read from. -/
theorem token?_readFrom {cs rest : List Char} {t : Token} (h : token? cs = some (t, rest)) :
    t.ReadFrom cs rest := by
  rw [token?.eq_def] at h
  split at h
  · cases h
  · cases h; rfl
  · cases h; rfl
  · cases h; trivial
  · cases h; trivial
  · cases h; rfl
  · cases h; trivial
  · -- a minus sign, in front of a numeral or in a name
    rcases Option.or_eq_some_iff.mp h with hnumber | ⟨-, hname⟩
    · rcases number?_eq_some hnumber with rfl | ⟨ds, hds, rfl, rfl⟩
      · trivial
      · exact ⟨'-' :: ds, .minus hds, rfl⟩
    · rw [name?_eq_some hname]
      trivial
  · split at h
    · rcases number?_eq_some h with rfl | ⟨ds, hds, hcs, rfl⟩
      · trivial
      · exact ⟨ds, .plain hds, hcs⟩
    · split at h
      · obtain ⟨_, _, hpair⟩ := Option.map_eq_some_iff.mp h
        cases hpair
        trivial
      · rw [name?_eq_some h]
        trivial

section Cutting

variable {fuel : Nat} {before cs rest : List Char} {t : Token} {ts : List Token}

/-- A token, and white space in front of it, is cut off. -/
theorem tokensUpTo_blank_append (hbefore : Blank before) (h : token? cs = some (t, rest))
    (hrest : tokensUpTo fuel rest = some ts) :
    tokensUpTo (fuel + 1) (before ++ cs) = some (t :: ts) := by
  cases cs with
  | nil => cases h
  | cons c cs =>
    have hc : ¬ isSpace c = true := by
      intro hspace
      cases (token?_of_isSpace hspace cs).symm.trans h
    rw [tokensUpTo, hbefore.dropWhile_append, List.dropWhile_cons_of_neg hc]
    show (token? (c :: cs)).bind _ = _
    rw [h, Option.bind_some]
    show (tokensUpTo fuel rest).bind _ = _
    rw [hrest, Option.bind_some]

/-- A blank text has no tokens. -/
theorem tokensUpTo_blank (hbefore : Blank before) : tokensUpTo (fuel + 1) before = some [] := by
  have hnil : before.dropWhile isSpace = [] := by
    rw [← List.append_nil before, hbefore.dropWhile_append, List.dropWhile_nil]
  rw [tokensUpTo, hnil]

/-- What a text starts with follows from its tokens: white space and the first of them, if there is one. -/
theorem tokensUpTo_eq_some (h : tokensUpTo fuel cs = some ts) :
    ts = [] ∧ Blank cs ∨
    ∃ t others fuel' before inner rest, ts = t :: others ∧ Blank before ∧ cs = before ++ inner ∧
      t.ReadFrom inner rest ∧ tokensUpTo fuel' rest = some others := by
  cases fuel with
  | zero => cases h
  | succ fuel =>
    rw [tokensUpTo] at h
    -- either nothing is left behind the blank, or a token is read there and the others behind it
    split at h
    · next hnil =>
      cases h
      rw [← List.takeWhile_append_dropWhile (p := isSpace) (l := cs), hnil, List.append_nil]
      exact .inl ⟨rfl, blank_takeWhile cs⟩
    · obtain ⟨⟨t, rest⟩, htoken, h⟩ := Option.bind_eq_some_iff.mp h
      obtain ⟨others, hrest, h⟩ := Option.bind_eq_some_iff.mp h
      cases h
      exact .inr ⟨t, others, fuel, _, _, rest, rfl, blank_takeWhile cs,
        List.takeWhile_append_dropWhile.symm, token?_readFrom htoken, hrest⟩

/-- Only a blank text has none. -/
theorem blank_of_tokensUpTo (h : tokensUpTo fuel cs = some []) : Blank cs := by
  rcases tokensUpTo_eq_some h with ⟨-, hblank⟩ | ⟨_, _, _, _, _, _, hts, -⟩
  · exact hblank
  · cases hts

/-- Where there are tokens, the first one is read behind a blank, and the others behind it. -/
theorem readFrom_of_tokensUpTo (h : tokensUpTo fuel cs = some (t :: ts)) :
    ∃ fuel' before inner rest, Blank before ∧ cs = before ++ inner ∧ t.ReadFrom inner rest ∧
      tokensUpTo fuel' rest = some ts := by
  rcases tokensUpTo_eq_some h with ⟨hts, -⟩ | ⟨_, _, fuel', before, inner, rest, hts, hread⟩
  · cases hts
  · cases hts
    exact ⟨fuel', before, inner, rest, hread⟩

end Cutting

/-! ## The tokens of a list -/

/-- A number ends in front of a blank as well. -/
theorem Blank.endsNumber {before cs : List Char} (h : Blank before) (hcs : EndsNumber cs) :
    EndsNumber (before ++ cs) := by
  cases before with
  | nil => exact hcs
  | cons c before =>
    refine ⟨c, before ++ cs, rfl, ?_⟩
    rcases h c List.mem_cons_self with hc | hc | hc | hc
    · exact .inl hc
    · exact .inr (.inl hc)
    · exact .inr (.inr (.inl hc))
    · exact .inr (.inr (.inr (.inl hc)))

/-- An integer is spelled by at least one character. -/
theorem SpellsInteger.length_pos {n : Int} {literal : List Char} (h : SpellsInteger n literal) :
    0 < literal.length := by
  cases h with
  | plain hds => exact List.length_pos_of_ne_nil hds.ne_nil
  | minus hds => exact Nat.succ_pos _

/-- What starts with a digit is read as a number. -/
theorem token?_digit {d : Char} (hd : d.isDigit = true) (cs : List Char) :
    token? (d :: cs) = number? false (d :: cs) := by
  rw [token?.eq_def]
  split
  case h_1 heq => cases heq
  case h_9 heq =>
    cases heq
    exact if_pos hd
  all_goals
    next heq =>
      cases heq
      exact absurd hd (by decide)

/-- An integer that has few enough digits is the token of its text. -/
theorem token?_integer {n : Int} {literal rest : List Char} (h : SpellsInteger n literal)
    (hn : n.natAbs < 10 ^ digitLimit) (hrest : EndsNumber rest) :
    token? (literal ++ rest) = some (.integer n, rest) := by
  -- with no sign the first character is a digit; behind a minus sign the rest is read as a number
  cases h with
  | plain hds =>
    have hread : number? false (literal ++ rest) = some (.integer (signed false literal), rest) :=
      number?_append hds (hds.length_le (by decide) hn) hrest
    obtain ⟨d, others, rfl⟩ := List.exists_cons_of_ne_nil hds.ne_nil
    exact (token?_digit (hds.digits d List.mem_cons_self) _).trans hread
  | @minus ds hds =>
    rw [Int.natAbs_neg] at hn
    have hread : number? true (ds ++ rest) = some (.integer (signed true ds), rest) :=
      number?_append hds (hds.length_le (by decide) hn) hrest
    exact Option.or_eq_some_iff.mpr (.inl hread)

/-- A spelled list is cut into its tokens. -/
theorem SpellsItems.tokensUpTo {ns : List Int} {text : List Char} (h : SpellsItems ns text)
    (hns : ∀ n ∈ ns, n.natAbs < 10 ^ digitLimit) {fuel : Nat} (hfuel : text.length < fuel) :
    tokensUpTo fuel text = some (itemTokens ns) := by
  have hclose (cs : List Char) : EndsNumber (']' :: cs) := ⟨']', cs, rfl, by decide⟩
  have hcomma (cs : List Char) : EndsNumber (',' :: cs) := ⟨',', cs, rfl, by decide⟩
  -- on the items; each token takes at least one character, so there is fuel left for the rest
  induction h generalizing fuel with
  | none hbefore hafter =>
    obtain ⟨fuel, rfl⟩ : ∃ f, fuel = f + 2 := ⟨fuel - 2, by simp at hfuel; omega⟩
    exact tokensUpTo_blank_append hbefore rfl (tokensUpTo_blank hafter)
  | @last n before literal between after hbefore hliteral hbetween hafter =>
    have hpos := hliteral.length_pos
    obtain ⟨fuel, rfl⟩ : ∃ f, fuel = f + 3 := ⟨fuel - 3, by simp at hfuel; omega⟩
    have hread := token?_integer hliteral (hns n List.mem_cons_self) (hbetween.endsNumber (hclose after))
    exact tokensUpTo_blank_append hbefore hread
      (tokensUpTo_blank_append hbetween rfl (tokensUpTo_blank hafter))
  | @more n m ns before literal between rest hbefore hliteral hbetween hrest ih =>
    have hpos := hliteral.length_pos
    obtain ⟨fuel, rfl⟩ : ∃ f, fuel = f + 2 := ⟨fuel - 2, by simp at hfuel; omega⟩
    have hread := token?_integer hliteral (hns n List.mem_cons_self) (hbetween.endsNumber (hcomma rest))
    have hlt : rest.length < fuel := by simp at hfuel; omega
    have hothers := ih (fun n hn => hns n (List.mem_cons_of_mem _ hn)) hlt
    exact tokensUpTo_blank_append hbefore hread (tokensUpTo_blank_append hbetween rfl hothers)

/-- Only a spelled list is cut into the tokens of the list. -/
theorem spellsItems_of_tokensUpTo {ns : List Int} {fuel : Nat} {text : List Char}
    (h : tokensUpTo fuel text = some (itemTokens ns)) : SpellsItems ns text := by
  -- on the items: closed at once, closed behind the last one, or going on behind a comma
  induction ns using itemTokens.induct generalizing fuel text with
  | case1 =>
    obtain ⟨_, before, _, after, hbefore, rfl, rfl, hend⟩ := readFrom_of_tokensUpTo h
    exact .none hbefore (blank_of_tokensUpTo hend)
  | case2 n =>
    obtain ⟨_, before, _, _, hbefore, rfl, ⟨literal, hliteral, rfl⟩, hclose⟩ := readFrom_of_tokensUpTo h
    obtain ⟨_, between, _, after, hbetween, rfl, rfl, hend⟩ := readFrom_of_tokensUpTo hclose
    exact .last hbefore hliteral hbetween (blank_of_tokensUpTo hend)
  | case3 n m ns ih =>
    obtain ⟨_, before, _, _, hbefore, rfl, ⟨literal, hliteral, rfl⟩, hcomma⟩ := readFrom_of_tokensUpTo h
    obtain ⟨_, between, _, rest, hbetween, rfl, rfl, hrest⟩ := readFrom_of_tokensUpTo hcomma
    exact .more hbefore hliteral hbetween (ih hrest)

/-- A text is cut into the tokens of a list exactly if it spells the list. -/
theorem tokens?_eq_some_iff {ns : List Int} (hns : ∀ n ∈ ns, n.natAbs < 10 ^ digitLimit)
    {text : List Char} : tokens? text = some (.openList :: itemTokens ns) ↔ SpellsList ns text := by
  constructor
  · intro h
    obtain ⟨_, before, _, rest, hbefore, rfl, rfl, hitems⟩ := readFrom_of_tokensUpTo h
    exact ⟨before, rest, hbefore, spellsItems_of_tokensUpTo hitems, rfl⟩
  · rintro ⟨before, rest, hbefore, hitems, rfl⟩
    exact tokensUpTo_blank_append hbefore rfl (hitems.tokensUpTo hns (by simp; omega))

/-! ## Nesting -/

section Nesting

variable {fuel depth : Nat} {ts rest : List Token}

/-- A value that is an integer is one token, and one that is a list an opening bracket and its items. -/
theorem value?_eq_some {document : Json} (h : value? fuel depth ts = some (document, rest)) :
    document = .other ∨ (∃ n, document = .integer n ∧ ts = .integer n :: rest) ∨
    ∃ items inner, document = .list items ∧ ts = .openList :: inner ∧
      (items = [] ∧ inner = .closeList :: rest ∨
        ∃ fuel' depth', items? fuel' depth' inner = some (items, rest)) := by
  cases fuel with
  | zero => rw [value?] at h; cases h
  | succ fuel =>
    -- one case for each first token
    rw [value?.eq_def] at h
    dsimp only at h
    split at h
    · cases h
      exact .inr (.inl ⟨_, rfl, rfl⟩)
    · cases h
      exact .inl rfl
    · cases h
      exact .inl rfl
    · cases h
      exact .inr (.inr ⟨[], _, rfl, rfl, .inl ⟨rfl, rfl⟩⟩)
    · split at h
      · cases h
      · obtain ⟨⟨items, _⟩, hitems, hpair⟩ := Option.map_eq_some_iff.mp h
        cases hpair
        exact .inr (.inr ⟨items, _, rfl, rfl, .inr ⟨fuel, _, hitems⟩⟩)
    · cases h
      exact .inl rfl
    · split at h
      · cases h
      · obtain ⟨_, _, hpair⟩ := Option.map_eq_some_iff.mp h
        cases hpair
        exact .inl rfl
    · cases h

/-- An integer is one token. -/
theorem value?_eq_integer {n : Int} (h : value? fuel depth ts = some (.integer n, rest)) :
    ts = .integer n :: rest := by
  rcases value?_eq_some h with hother | ⟨m, hm, hts⟩ | ⟨_, _, hlist, -⟩
  · cases hother
  · cases hm
    exact hts
  · cases hlist

/-- Items that are integers are read from the tokens of those only. -/
theorem items?_eq_integers {ns : List Int} (h : items? fuel depth ts = some (ns.map .integer, rest)) :
    ns ≠ [] ∧ ts = itemTokens ns ++ rest := by
  induction fuel generalizing ns ts with
  | zero => rw [items?] at h; cases h
  | succ fuel ih =>
    rw [items?] at h
    obtain ⟨⟨item, behind⟩, hitem, h⟩ := Option.bind_eq_some_iff.mp h
    dsimp only at h
    split at h
    · -- the last item
      obtain ⟨hone, rfl⟩ := Prod.mk.inj (Option.some.inj h)
      obtain ⟨n, rfl, rfl⟩ := List.map_eq_singleton_iff.mp hone.symm
      exact ⟨List.cons_ne_nil _ _, value?_eq_integer hitem⟩
    · obtain ⟨⟨items, _⟩, hitems, hpair⟩ := Option.bind_eq_some_iff.mp h
      obtain ⟨hcons, rfl⟩ := Prod.mk.inj (Option.some.inj hpair)
      obtain ⟨n, ns, rfl, rfl, rfl⟩ := List.map_eq_cons_iff.mp hcons.symm
      obtain ⟨hne, rfl⟩ := ih hitems
      obtain ⟨m, ns, rfl⟩ := List.exists_cons_of_ne_nil hne
      exact ⟨List.cons_ne_nil _ _, value?_eq_integer hitem⟩
    · cases h

/-- The tokens of integers are read as those. -/
theorem items?_itemTokens {ns : List Int} (hne : ns ≠ []) (hfuel : ns.length < fuel) :
    items? fuel depth (itemTokens ns) = some (ns.map .integer, []) := by
  induction ns using itemTokens.induct generalizing fuel with
  | case1 => exact absurd rfl hne
  | case2 n =>
    obtain ⟨fuel, rfl⟩ : ∃ f, fuel = f + 2 := ⟨fuel - 2, by simp at hfuel; omega⟩
    rfl
  | case3 n m ns ih =>
    -- an item takes one unit of fuel, and the others are fewer
    obtain ⟨fuel, rfl⟩ : ∃ f, fuel = f + 2 := ⟨fuel - 2, by simp at hfuel; omega⟩
    have hothers : items? (fuel + 1) depth (itemTokens (m :: ns)) = some ((m :: ns).map .integer, []) :=
      ih (List.cons_ne_nil m ns) (by simp at hfuel ⊢; omega)
    rw [items?]
    show (items? (fuel + 1) depth (itemTokens (m :: ns))).bind _ = _
    rw [hothers]
    rfl

/-- The tokens of a list are read as the list, if it may nest at all. -/
theorem value?_listTokens {ns : List Int} (hfuel : ns.length < fuel) :
    value? (fuel + 1) (depth + 1) (.openList :: itemTokens ns) = some (.list (ns.map .integer), []) := by
  cases ns with
  | nil => rfl
  | cons n ns =>
    have hitems : items? fuel depth (itemTokens (n :: ns)) = some ((n :: ns).map .integer, []) :=
      items?_itemTokens (List.cons_ne_nil n ns) hfuel
    -- the first token behind the bracket is no closing one
    obtain ⟨inner, hinner⟩ : ∃ inner, itemTokens (n :: ns) = .integer n :: inner := by
      cases ns with
      | nil => exact ⟨_, rfl⟩
      | cons m ns => exact ⟨_, rfl⟩
    rw [hinner] at hitems ⊢
    show (items? fuel depth (.integer n :: inner)).map _ = _
    rw [hitems]
    rfl

end Nesting

/-- Every item of a list has a token. -/
theorem length_le_itemTokens (ns : List Int) : ns.length ≤ (itemTokens ns).length := by
  induction ns using itemTokens.induct with
  | case1 => exact Nat.zero_le _
  | case2 n => exact Nat.le_succ _
  | case3 n m ns ih => exact Nat.succ_le_succ (Nat.le_succ_of_le ih)

/-- Only the tokens of a list are put together as the list. -/
theorem ofTokens?_eq_list_iff {ns : List Int} {ts : List Token} :
    ofTokens? ts = some (.list (ns.map .integer)) ↔ ts = .openList :: itemTokens ns := by
  rw [ofTokens?]
  constructor
  · intro h
    split at h
    · next document hvalue =>
      cases h
      rcases value?_eq_some hvalue with hother | ⟨_, hinteger, -⟩ | ⟨items, inner, hlist, rfl, hinner⟩
      · cases hother
      · cases hinteger
      · cases hlist
        rcases hinner with ⟨hnil, rfl⟩ | ⟨_, _, hitems⟩
        · rw [List.map_eq_nil_iff.mp hnil]
          rfl
        · rw [(items?_eq_integers hitems).2, List.append_nil]
    · cases h
  -- a list is one level deep, and has tokens enough to fuel its items
  · rintro rfl
    have hfuel : ns.length < 2 * (Token.openList :: itemTokens ns).length := by
      have hle := length_le_itemTokens ns
      show ns.length < 2 * ((itemTokens ns).length + 1)
      omega
    have hdepth : nestingLimit = 199 + 1 := rfl
    rw [hdepth, value?_listTokens hfuel]

/-- A text is read as a list of integers exactly if it spells the list. -/
theorem parse?_eq_list_iff {ns : List Int} (hns : ∀ n ∈ ns, n.natAbs < 10 ^ digitLimit)
    {text : List Char} : parse? text = some (.list (ns.map .integer)) ↔ SpellsList ns text := by
  rw [parse?, Option.bind_eq_some_iff, ← tokens?_eq_some_iff hns]
  constructor
  · rintro ⟨ts, hts, hlist⟩
    rw [hts, ofTokens?_eq_list_iff.mp hlist]
  · intro hts
    exact ⟨_, hts, ofTokens?_eq_list_iff.mpr rfl⟩

/-! ## What is written -/

/-- The text that numbers are written as, behind the opening bracket. -/
theorem spellsItems_intercalate (ns : List Nat) :
    SpellsItems (ns.map Int.ofNat) ([','].intercalate (ns.map (Nat.toDigits 10)) ++ [']']) := by
  have hnone : Blank [] := fun _ h => (nomatch h)
  have hliteral (n : Nat) : SpellsInteger n (Nat.toDigits 10 n) := by
    have h := SpellsInteger.plain (isNumeral_toDigits n)
    rwa [numeralValue_toDigits] at h
  -- no blank anywhere; a comma between one number and the next
  induction ns with
  | nil => exact .none hnone hnone
  | cons n ns ih =>
    cases ns with
    | nil =>
      rw [List.map_singleton, List.map_singleton, List.intercalate_singleton]
      exact .last hnone (hliteral n) hnone hnone
    | cons m ns =>
      have hrest := SpellsItems.more hnone (hliteral n) hnone ih
      simp only [List.map_cons, List.intercalate_cons_cons, List.append_assoc] at hrest ⊢
      exact hrest

/-- The text that a list of numbers is written as spells it. -/
theorem spellsList_renderNumbers (ns : List Nat) :
    SpellsList (ns.map Int.ofNat) (renderNumbers ns).toList := by
  refine ⟨[], _, fun _ h => (nomatch h), spellsItems_intercalate ns, ?_⟩
  have hwritten : (ns.map toString).map String.toList = ns.map (Nat.toDigits 10) := by
    rw [List.map_map]
    exact List.map_congr_left fun n _ => Nat.toList_repr
  rw [renderNumbers, String.toList_append, String.toList_append, String.toList_intercalate, hwritten]
  rfl

end AggSig.Json
