/-
  Powers by repeated squaring.

  `bits n` lists the binary digits of `n`, least significant first and without trailing zeros, so
  zero has none.  `power a n` walks along them: it squares the base at every digit and multiplies
  where the digit is one.
-/

namespace AggSig

/-- At most `k` binary digits of a number, least significant first. -/
def bitsUpTo : Nat → Nat → List Bool
  | 0, _ => []
  | k + 1, n => if n = 0 then [] else (n % 2 == 1) :: bitsUpTo k (n / 2)

/-- The binary digits of a number, least significant first; the last one is a one. -/
def bits (n : Nat) : List Bool := bitsUpTo (n.log2 + 1) n

/-- The power whose exponent has the given binary digits. -/
def powerBits {M : Type} [Mul M] [One M] (a : M) : List Bool → M
  | [] => 1
  | b :: bs =>
    let rest := powerBits (a * a) bs
    if b then a * rest else rest

/-- `a` to the power `n`, with `a` to the power zero equal to one. -/
def power {M : Type} [Mul M] [One M] (a : M) (n : Nat) : M := powerBits a (bits n)

example : bits 6 = [false, true, true] ∧ bits 0 = [] := by decide

end AggSig
