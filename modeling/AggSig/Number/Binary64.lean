/-
  Fractions: binary floating-point numbers of 64 bits.

  A finite number is a sign, a significand below `2 ^ 53` and an exponent of two.  It is kept in the
  one form in which the significand is as large as it may be, so two finite numbers are the same
  triple exactly when they are the same number with the same sign.  Nothing here computes with such
  numbers: they are read from decimals, compared exactly, with each other and with integers, and
  shown.

  `ofRatio` rounds a quotient to the nearest number, a tie to the one with the even significand;
  `ofDecimal` reads a decimal that way.
-/

namespace AggSig

/-- A floating-point number. -/
inductive Binary64
  | finite (negative : Bool) (significand : Nat) (exponent : Int)
  | infinite (negative : Bool)
  deriving DecidableEq

namespace Binary64

/-- The number of bits in a significand. -/
def precision : Nat := 53

/-- The exponent of the smallest numbers. -/
def leastExponent : Int := -1074

/-- The exponent of the largest numbers. -/
def greatestExponent : Int := 971

/-! ## Rounding -/

/-- A quotient rounded to the nearest integer, a tie to the even one. -/
def roundQuotient (top bottom : Nat) : Nat :=
  let n := top / bottom
  let twice := 2 * (top % bottom)
  if twice < bottom then n else if bottom < twice then n + 1 else n + n % 2

/-- The quotient of `top / bottom` by a power of a base, as a quotient again. -/
def overPower (base : Nat) (exponent : Int) (top bottom : Nat) : Nat × Nat :=
  if 0 ≤ exponent then (top, bottom * Nat.pow base exponent.toNat)
  else (top * Nat.pow base (-exponent).toNat, bottom)

/-- The exponent of the greatest power of two that is at most the quotient of two positive numbers. -/
def log2Quotient (top bottom : Nat) : Int :=
  let guess : Int := (top.log2 : Int) - bottom.log2
  let (a, b) := overPower 2 guess top bottom
  if b ≤ a then guess else guess - 1

/-- The number nearest to a quotient. -/
def ofRatio (negative : Bool) (top bottom : Nat) : Binary64 :=
  if top = 0 then finite negative 0 leastExponent
  else
    let exponent := max leastExponent (log2Quotient top bottom - (precision - 1 : Nat))
    let (a, b) := overPower 2 exponent top bottom
    let significand := roundQuotient a b
    let (significand, exponent) :=
      if significand = Nat.pow 2 precision then (Nat.pow 2 (precision - 1), exponent + 1)
      else (significand, exponent)
    if greatestExponent < exponent then infinite negative
    else finite negative significand exponent

/-- The number of decimal digits of a number. -/
def decimalLength (n : Nat) : Nat := (toString n).length

/-- The number nearest to `digits * 10 ^ exponent`.  Far outside the range of the format nothing is
    computed: the result is infinite or zero. -/
def ofDecimal (negative : Bool) (digits : Nat) (exponent : Int) : Binary64 :=
  let point := exponent + decimalLength digits
  if digits = 0 ∨ point < -400 then finite negative 0 leastExponent
  else if 400 < point then infinite negative
  else
    let (a, b) := overPower 10 (-exponent) digits 1
    ofRatio negative a b

/-! ## Order -/

/-- Whether the number is zero, whatever its sign. -/
def isZero : Binary64 → Bool
  | finite _ significand _ => significand = 0
  | infinite _ => false

/-- The integer that the number is, if it is one. -/
def integer? : Binary64 → Option Int
  | finite negative significand exponent =>
    let (a, b) := overPower 2 (-exponent) significand 1
    if a % b = 0 then some (if negative then -(a / b : Nat) else (a / b : Nat)) else none
  | infinite _ => none

end Binary64

/-- A number of either kind. -/
inductive Number
  | whole (n : Int)
  | fraction (x : Binary64)

namespace Number

/-- Where a number lies beyond all finite ones, if it does. -/
def side : Number → Int
  | fraction (.infinite negative) => if negative then -1 else 1
  | _ => 0

/-- A finite number as an integer times a power of two. -/
def scaled : Number → Int × Int
  | whole n => (n, 0)
  | fraction (.finite negative significand exponent) =>
    (if negative then -(significand : Int) else significand, exponent)
  | fraction (.infinite _) => (0, 0)

/-- The order of numbers by their exact values. -/
def compare (a b : Number) : Ordering :=
  if a.side ≠ 0 ∨ b.side ≠ 0 then Ord.compare a.side b.side
  else
    let (m, e) := a.scaled
    let (n, f) := b.scaled
    let least := min e f
    Ord.compare (m * Int.pow 2 (e - least).toNat) (n * Int.pow 2 (f - least).toNat)

/-- Whether one number is below the other. -/
def below (a b : Number) : Bool := a.compare b = .lt

/-- Whether two numbers have the same value. -/
def same (a b : Number) : Bool := a.compare b = .eq

/-- Whether the number is zero. -/
def isZero : Number → Bool
  | whole n => n = 0
  | fraction x => x.isZero

/-- The lesser of two numbers, the first one if they are the same. -/
def least (a b : Number) : Number := if b.below a then b else a

/-- The greater of two numbers, the first one if they are the same. -/
def greatest (a b : Number) : Number := if a.below b then b else a

theorem compare_whole (m n : Int) : compare (whole m) (whole n) = Ord.compare m n := by
  simp [compare, side, scaled, Int.pow]

theorem below_whole (m n : Int) : below (whole m) (whole n) = decide (m < n) := by
  simp [below, compare_whole, Int.compare_eq_lt]

/-- The least of two whole numbers is that of the integers. -/
theorem least_whole (m n : Int) : least (whole m) (whole n) = whole (min m n) := by
  simp only [least, below_whole, decide_eq_true_eq]
  split
  · rw [Int.min_eq_right (by omega)]
  · rw [Int.min_eq_left (by omega)]

/-- The greatest one is that of the integers. -/
theorem greatest_whole (m n : Int) : greatest (whole m) (whole n) = whole (max m n) := by
  simp only [greatest, below_whole, decide_eq_true_eq]
  split
  · rw [Int.max_eq_right (by omega)]
  · rw [Int.max_eq_left (by omega)]

example : same (.whole 2) (.fraction (.ofDecimal false 20 (-1))) = true := by decide
example : below (.whole 2) (.fraction (.ofDecimal false 25 (-1))) = true := by decide

end Number

end AggSig
