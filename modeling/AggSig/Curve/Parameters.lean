/-
  The two curves of BLS12-381 and their distinguished points.

  The first group lies on `y² = x³ + 4` over the prime field, the second on `y² = x³ + 4(1 + u)` over
  the quadratic extension.  Both have a subgroup of the prime order `groupOrder`.
-/
import AggSig.Curve.GroupLaw
import AggSig.Field.Quadratic

namespace AggSig

/-- The order of both source groups: a 255-bit prime. -/
def groupOrder : Nat := 0x73eda753299d7d483339d80809a1d80553bda402fffe5bfeffffffff00000001

/-- The constant term of the first curve. -/
def b₁ : Fq := Fq.ofNat 4

/-- The constant term of the second curve. -/
def b₂ : Fq2 := Fq2.ofNats 4 4

/-- The generator of the first group. -/
def generator : Point Fq where
  x := Fq.ofNat
    0x17f1d3a73197d7942695638c4fa9ac0fc3688c4f9774b905a14e3a3f171bac586c55e83ff97a1aeffb3af00adb22c6bb
  y := Fq.ofNat
    0x08b3f481e3aaa0f1a09e30ed741d8ae4fcf5e095d5d00af600db18cb2c04b3edd03cc744a2888ae40caa232946c5e7e1
  z := 1

end AggSig
