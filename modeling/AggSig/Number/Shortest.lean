/-
  The text of a floating-point number: the fewest decimal digits that read back as the same number,
  and among those the decimal nearest to it.

  The number is looked up on ever finer decimal grids.  On each grid only its two neighbours can read
  back if any point does, so the first grid on which one of them does gives the digits.
-/
import AggSig.Number.Binary64

namespace AggSig.Binary64

/-- The exponent of the greatest power of ten that is at most the quotient of two positive numbers. -/
def log10Quotient (top bottom : Nat) : Int :=
  if bottom ≤ top then (decimalLength (top / bottom) : Int) - 1
  else
    match (List.range 400).find? fun k => bottom ≤ top * Nat.pow 10 k with
    | some k => -(k : Int)
    | none => 0

/-- The neighbour of a quotient among the multiples of `10 ^ grid` that reads back as the given number,
    divided by `10 ^ grid`; of two such neighbours the nearer one, or the even one. -/
def readBack? (x : Binary64) (top bottom : Nat) (grid : Int) : Option Nat :=
  let (a, b) := overPower 10 grid top bottom
  let low := a / b
  let reads (digits : Nat) : Bool := ofDecimal false digits grid = x
  let nearest := roundQuotient a b
  if reads nearest then some nearest
  else if reads low then some low
  else if reads (low + 1) then some (low + 1)
  else none

/-- The shortest decimal of a positive number `significand * 2 ^ exponent`: its digits as a number, and
    the power of ten that they are multiplied by. -/
def shortest (significand : Nat) (exponent : Int) : Nat × Int :=
  let (top, bottom) := overPower 2 (-exponent) significand 1
  let lead := log10Quotient top bottom
  let found := (List.range 17).findSome? fun (more : Nat) =>
    let grid := lead - more
    (readBack? (.finite false significand exponent) top bottom grid).map (·, grid)
  found.getD (0, 0)

/-- Without the zeros at its end. -/
def dropZeros (digits : List Char) : List Char := (digits.reverse.dropWhile (· = '0')).reverse

/-- An exponent of ten with its sign and at least two digits. -/
def exponentText (exponent : Int) : String :=
  let digits := toString exponent.natAbs
  "e" ++ (if exponent < 0 then "-" else "+") ++ (if digits.length < 2 then "0" else "") ++ digits

/-- Digits with the decimal point after the first `point` of them.  Values from `10 ^ -4` to below
    `10 ^ 16` are written in full and others with an exponent. -/
def place (digits : List Char) (point : Int) : String :=
  if -4 < point ∧ point ≤ 16 then
    if point ≤ 0 then
      "0." ++ String.ofList (List.replicate (-point).toNat '0' ++ digits)
    else if (digits.length : Int) ≤ point then
      String.ofList (digits ++ List.replicate (point.toNat - digits.length) '0') ++ ".0"
    else
      String.ofList (digits.take point.toNat) ++ "." ++ String.ofList (digits.drop point.toNat)
  else
    let more := digits.drop 1
    String.ofList (digits.take 1) ++
      (if more.isEmpty then "" else "." ++ String.ofList more) ++ exponentText (point - 1)

/-- The text of a number. -/
def text : Binary64 → String
  | infinite negative => (if negative then "-" else "") ++ "inf"
  | finite negative significand exponent =>
    (if negative then "-" else "") ++
      if significand = 0 then "0.0"
      else
        let (digits, grid) := shortest significand exponent
        let written := (toString digits).toList
        place (dropZeros written) (grid + written.length)

end AggSig.Binary64
