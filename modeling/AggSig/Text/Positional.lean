/-
  Positional numerals over an alphabet of digits.

  `value?` reads a text, most significant digit first, and fails at a character outside the alphabet;
  no digits at all spell zero, and leading zero digits change nothing.  `numeral` writes a number with
  as few digits as it takes, and zero as the one zero digit.

  The main statement is `value?_append_single`: the value grows by one digit at a time.
-/

namespace AggSig.Positional

/-- The number that the digits spell in base `alphabet.length`. -/
def value? (alphabet : List Char) (digits : List Char) : Option Nat :=
  digits.foldlM
    (fun n c => (alphabet.idxOf? c).map (n * alphabet.length + ·)) 0

/-- The digits of a number in front of digits already written; `fuel` bounds their count. -/
def digitsOnto (alphabet : List Char) : Nat → Nat → List Char → List Char
  | 0, _, written => written
  | fuel + 1, n, written =>
    if n = 0 then written
    else
      digitsOnto alphabet fuel (n / alphabet.length)
        (alphabet.getD (n % alphabet.length) ' ' :: written)

/-- The shortest numeral of a number; zero has one digit. -/
def numeral (alphabet : List Char) (n : Nat) : List Char :=
  if n = 0 then alphabet.take 1 else digitsOnto alphabet (n.log2 + 1) n []

/-! ## Reading digit by digit -/

/-- A digit at the end is the lowest one. -/
theorem value?_append_single (alphabet digits : List Char) (c : Char) :
    value? alphabet (digits ++ [c]) =
      (value? alphabet digits).bind
        fun n => (alphabet.idxOf? c).map (n * alphabet.length + ·) := by
  simp [value?, List.foldlM_append]

example : value? "01".toList "0101".toList = some 5 := by decide
example : value? "01".toList "012".toList = none := by decide
example : numeral "01".toList 5 = "101".toList ∧ numeral "01".toList 0 = "0".toList := by decide

end AggSig.Positional
