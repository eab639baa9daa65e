/-
  The integers that a document may hold, and what they are read as.

  An integer is spelled by digits without a needless zero in front, after a minus sign or not.  Reading
  takes digits as long as there are any, so digits are read as a number exactly where they end: at a
  character that is no digit, no point and no exponent (`number?_eq_some`, `number?_append`).  The
  only other condition is on their number, and the digits of a small number meet it
  (`IsNumeral.length_le`).  The digits that a number is written with are a numeral
  (`isNumeral_toDigits`).
-/
import AggSig.Proofs.Text.Positional
import AggSig.Text.Json
import Mathlib.Data.List.TakeDrop
import Mathlib.Data.List.TakeWhile

namespace AggSig.Json

/-! ## Numerals -/

/-- Decimal digits, with a zero in front only where it is the one digit. -/
structure IsNumeral (ds : List Char) : Prop where
  ne_nil : ds ≠ []
  digits : ∀ d ∈ ds, d.isDigit = true
  leading : ds.head? = some '0' → ds = ['0']

/-- The number that decimal digits spell. -/
def numeralValue (ds : List Char) : Nat := Nat.ofDigitChars 10 ds 0

/-- The text is an integer: a numeral, after a minus sign or not. -/
inductive SpellsInteger : Int → List Char → Prop
  | plain {ds : List Char} (h : IsNumeral ds) : SpellsInteger (numeralValue ds) ds
  | minus {ds : List Char} (h : IsNumeral ds) : SpellsInteger (-(numeralValue ds : Int)) ('-' :: ds)

/-- The decimal digits are ten characters in a row. -/
theorem toNat_of_isDigit {d : Char} (h : d.isDigit = true) : 48 ≤ d.toNat ∧ d.toNat ≤ 57 := by
  rw [Char.isDigit, Bool.and_eq_true, decide_eq_true_iff, decide_eq_true_iff] at h
  exact h

/-- A digit has its place among them. -/
theorem idxOf?_digit {d : Char} (h : d.isDigit = true) :
    "0123456789".toList.idxOf? d = some (d.toNat - '0'.toNat) := by
  -- by looking at the ten of them
  have hplaces : ∀ i < 10, "0123456789".toList.idxOf? (Char.ofNat (48 + i)) =
      some ((Char.ofNat (48 + i)).toNat - '0'.toNat) := by
    decide
  obtain ⟨hlow, hhigh⟩ := toNat_of_isDigit h
  have hplace := hplaces (d.toNat - 48) (by omega)
  rwa [Nat.add_sub_cancel' hlow, Char.ofNat_toNat] at hplace

/-- Decimal digits are read as the number that they spell. -/
theorem readOnto_digits {ds : List Char} (h : ∀ d ∈ ds, d.isDigit = true) (n : Nat) :
    Positional.readOnto "0123456789".toList n ds = some (Nat.ofDigitChars 10 ds n) := by
  -- on the digits, with any number read so far
  induction ds generalizing n with
  | nil => rfl
  | cons d ds ih =>
    obtain ⟨hd, hds⟩ := List.forall_mem_cons.mp h
    rw [Positional.readOnto, List.foldlM_cons, idxOf?_digit hd, Nat.ofDigitChars_cons, ← ih hds,
      Nat.mul_comm 10 n]
    rfl

/-- Digits are read as the number that they spell. -/
theorem decimal_eq_numeralValue {ds : List Char} (h : ∀ d ∈ ds, d.isDigit = true) :
    decimal ds = numeralValue ds := by
  rw [decimal, Positional.value?_eq_readOnto, readOnto_digits h]
  rfl

/-- The digits of a small number are few. -/
theorem IsNumeral.length_le {ds : List Char} (h : IsNumeral ds) {k : Nat} (hk : 0 < k)
    (hvalue : numeralValue ds < 10 ^ k) : ds.length ≤ k := by
  cases ds with
  | nil => exact absurd rfl h.ne_nil
  | cons d rest =>
    obtain ⟨hlow, -⟩ := toNat_of_isDigit (h.digits d List.mem_cons_self)
    by_cases hzero : d.toNat = 48
    · have hd : d = '0' := Char.toNat_inj.mp hzero
      obtain rfl : rest = [] := (List.cons.inj (h.leading (congrArg some hd))).2
      exact hk
    · -- the first digit is one at least, in its place
      have hfirst : 1 ≤ 10 * 0 + (d.toNat - '0'.toNat) := by
        show 1 ≤ 10 * 0 + (d.toNat - 48)
        omega
      have hplace : 10 ^ rest.length ≤ numeralValue (d :: rest) := by
        rw [numeralValue, Nat.ofDigitChars_cons, Nat.ofDigitChars_eq_ofDigitChars_zero]
        exact Nat.le_trans (Nat.le_mul_of_pos_right _ hfirst) (Nat.le_add_right _ _)
      exact (Nat.pow_lt_pow_iff_right (a := 10) (by decide)).mp (Nat.lt_of_le_of_lt hplace hvalue)

/-! ## What is read -/

section Reading

variable {negative : Bool} {cs ds rest : List Char}

/-- The digits that are taken are some, and they are in front. -/
theorem digits?_eq_some (h : digits? cs = some (ds, rest)) :
    ds ≠ [] ∧ (∀ d ∈ ds, d.isDigit = true) ∧ cs = ds ++ rest := by
  rw [digits?, List.span_eq_takeWhile_dropWhile] at h
  split at h
  · cases h
  · next hne =>
    cases h
    exact ⟨fun hnil => hne _ (Prod.ext hnil rfl), fun _ => List.mem_takeWhile_imp,
      List.takeWhile_append_dropWhile.symm⟩

/-- Digits are taken up to the first character that is none. -/
theorem digits?_append {c : Char} (hne : ds ≠ []) (hds : ∀ d ∈ ds, d.isDigit = true)
    (hc : c.isDigit = false) : digits? (ds ++ c :: rest) = some (ds, c :: rest) := by
  have hend : ¬ c.isDigit = true := by rw [hc]; decide
  have htake : (ds ++ c :: rest).takeWhile Char.isDigit = ds := by
    rw [List.takeWhile_append_of_pos hds, List.takeWhile_cons_of_neg hend, List.append_nil]
  have hdrop : (ds ++ c :: rest).dropWhile Char.isDigit = c :: rest := by
    rw [List.dropWhile_append_of_pos hds, List.dropWhile_cons_of_neg hend]
  rw [digits?, List.span_eq_takeWhile_dropWhile, htake, hdrop]
  cases ds with
  | nil => exact absurd rfl hne
  | cons d ds => rfl

/-- The integer of a numeral, after a minus sign or not. -/
def signed (negative : Bool) (ds : List Char) : Int :=
  if negative then -(numeralValue ds : Int) else numeralValue ds

/-- What goes on behind the digits is no integer. -/
theorem eq_plain_of_bind {t : Token} {after? : Option (List Char)}
    (h : (after?.bind fun after => some (Token.plain, after)) = some (t, rest)) : t = .plain := by
  obtain ⟨_, _, hpair⟩ := Option.bind_eq_some_iff.mp h
  cases hpair
  rfl

/-- What is read as an integer is a numeral. -/
theorem number?_eq_some {t : Token} (h : number? negative cs = some (t, rest)) :
    t = .plain ∨ ∃ ds, IsNumeral ds ∧ cs = ds ++ rest ∧ t = .integer (signed negative ds) := by
  rw [number?, Option.bind_eq_bind, Option.bind_eq_some_iff] at h
  obtain ⟨⟨ds, after⟩, hdigits, h⟩ := h
  obtain ⟨hne, hds, hcs⟩ := digits?_eq_some hdigits
  dsimp only at h
  split at h
  · cases h
  · next hsize =>
    -- the size test has turned down a zero in front of other digits
    have hleading : ds.head? = some '0' → ds = ['0'] := by
      intro hzero
      have hone : ds.length ≤ 1 := by
        by_contra hmany
        exact hsize (.inr ⟨by omega, hzero⟩)
      obtain ⟨others, rfl⟩ := List.head?_eq_some_iff.mp hzero
      rw [List.eq_nil_of_length_eq_zero (l := others) (by rw [List.length_cons] at hone; omega)]
    -- a point and an exponent make it another number, as does an exponent alone
    split at h
    · obtain ⟨_, _, h⟩ := Option.bind_eq_some_iff.mp h
      exact .inl (eq_plain_of_bind h)
    · exact .inl (eq_plain_of_bind h)
    · exact .inl (eq_plain_of_bind h)
    · cases h
      rw [decimal_eq_numeralValue hds]
      exact .inr ⟨ds, ⟨hne, hds, hleading⟩, hcs, rfl⟩

/-- A text in front of which a number ends: it goes on with white space, a comma or a closing bracket. -/
def EndsNumber (rest : List Char) : Prop :=
  ∃ c cs, rest = c :: cs ∧
    (c = ' ' ∨ c = '\t' ∨ c = '\n' ∨ c = '\r' ∨ c = ',' ∨ c = ']')

/-- A numeral is read as its number, where it ends. -/
theorem number?_append (h : IsNumeral ds) (hlength : ds.length ≤ digitLimit) (hrest : EndsNumber rest) :
    number? negative (ds ++ rest) = some (.integer (signed negative ds), rest) := by
  obtain ⟨c, cs, rfl, hc⟩ := hrest
  have hdigit : c.isDigit = false := by
    rcases hc with rfl | rfl | rfl | rfl | rfl | rfl <;> rfl
  -- a numeral passes both parts of the size test
  have hsize : ¬ (ds.length > digitLimit ∨ ds.length > 1 ∧ ds.head? = some '0') := by
    rintro (hlong | ⟨hmany, hzero⟩)
    · omega
    · rw [h.leading hzero] at hmany
      exact absurd hmany (by decide)
  rw [number?, digits?_append h.ne_nil h.digits hdigit, signed, ← decimal_eq_numeralValue h.digits]
  show (if _ then _ else _) = _
  rw [if_neg hsize]
  rcases hc with rfl | rfl | rfl | rfl | rfl | rfl <;> rfl

end Reading

/-! ## What is written -/

theorem numeralValue_toDigits (n : Nat) : numeralValue (Nat.toDigits 10 n) = n :=
  Nat.ofDigitChars_ten_toDigits

/-- A number is written without a needless zero. -/
theorem head?_toDigits (n : Nat) :
    (Nat.toDigits 10 n).head? = some '0' → Nat.toDigits 10 n = ['0'] := by
  induction n using Nat.strongRecOn with
  | ind n ih =>
    intro hzero
    rw [Nat.toDigits_eq_if (by decide)] at hzero ⊢
    split at hzero
    · next hsmall =>
      rw [if_pos hsmall, Option.some.inj hzero]
    · next hlarge =>
      -- the digits in front would be the one zero, and the number have one digit
      rw [List.head?_append_of_ne_nil _ Nat.toDigits_ne_nil] at hzero
      have hfront := ih (n / 10) (by omega) hzero
      have hnone : n / 10 = 0 := by rw [← numeralValue_toDigits (n / 10), hfront]; rfl
      omega

/-- The digits that a number is written with are a numeral. -/
theorem isNumeral_toDigits (n : Nat) : IsNumeral (Nat.toDigits 10 n) where
  ne_nil := Nat.toDigits_ne_nil
  digits _ h := Nat.isDigit_of_mem_toDigits (by decide) (by decide) h
  leading := head?_toDigits n

end AggSig.Json
