/-
  The prime field of BLS12-381.

  `Fq` holds the numbers below the 381-bit modulus `q`, with addition and multiplication modulo `q`.
  The inverse is the power `q - 2`, so that zero has the inverse zero and a quotient by zero is zero.
-/
import AggSig.Field.Power

namespace AggSig

/-- The field modulus: a 381-bit prime, three modulo four. -/
def q : Nat :=
  0x1a0111ea397fe69a4b1ba7b6434bacd764774b84f38512bf6730d2a0f6b0f6241eabfffeb153ffffb9feffffffffaaab

theorem q_pos : 0 < q := by decide

/-- A number below the field modulus. -/
structure Fq where
  val : Nat
  lt : val < q
  deriving DecidableEq

namespace Fq

/-- The residue of a number. -/
def ofNat (n : Nat) : Fq := ⟨n % q, Nat.mod_lt n q_pos⟩

/-- The residue of an integer. -/
def ofInt (n : Int) : Fq := ofNat (n % q).toNat

instance : Zero Fq := ⟨ofNat 0⟩
instance : One Fq := ⟨ofNat 1⟩
instance : Add Fq := ⟨fun a b => ofNat (a.val + b.val)⟩
instance : Mul Fq := ⟨fun a b => ofNat (a.val * b.val)⟩
instance : Neg Fq := ⟨fun a => ofNat (q - a.val)⟩
instance : Sub Fq := ⟨fun a b => ofNat (a.val + (q - b.val))⟩
instance : Inhabited Fq := ⟨0⟩

/-- The inverse of an element; that of zero is zero. -/
def inverse (a : Fq) : Fq := power a (q - 2)

instance : Div Fq := ⟨fun a b => a * inverse b⟩

/-- Whether twice the number reaches the modulus: of two opposite non-zero elements, one does. -/
def isUpperHalf (a : Fq) : Bool := q ≤ 2 * a.val

@[simp] theorem val_add (a b : Fq) : (a + b).val = (a.val + b.val) % q := rfl
@[simp] theorem val_mul (a b : Fq) : (a * b).val = a.val * b.val % q := rfl
@[simp] theorem val_neg (a : Fq) : (-a).val = (q - a.val) % q := rfl
@[simp] theorem val_sub (a b : Fq) : (a - b).val = (a.val + (q - b.val)) % q := rfl

@[ext] theorem ext {a b : Fq} (h : a.val = b.val) : a = b := by
  cases a; cases b; cases h; rfl

end Fq

end AggSig
