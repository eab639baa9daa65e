/-
  A signature suite: two groups of points, a pairing of them, and a hash to the second.

  Keys and signatures are defined over any suite, so that what is true of all suites whose groups and
  pairing obey the expected laws can be said once.  `bls12381` is the suite that runs.
-/
import AggSig.Curve.Coding
import AggSig.Curve.Pairing
import AggSig.Hash.ToCurve

namespace AggSig

/-- A group of points with its wire encodings. -/
structure Group (P : Type) extends GroupLaw P where
  /-- The coordinates that a point is made of. -/
  coordinates : P → List Coordinate
  /-- The point with the given coordinates, if they are from the field of the group. -/
  ofCoordinates? : List Coordinate → Option P
  encodeAffine : P → Bytes
  encodeCompressed : P → Except Failure Bytes
  /-- Decodes an encoding of the given form; the last argument allows the identity. -/
  decode : Form → Bytes → Bool → Except Failure P

/-- The encoding of a point in a form. -/
def Group.encode {P : Type} (G : Group P) (form : Form) (p : P) : Except Failure Bytes :=
  match form with
  | .affine => .ok (G.encodeAffine p)
  | .compressed => G.encodeCompressed p

/-- What keys and signatures are built from. -/
structure Suite (P₁ P₂ T : Type) where
  group₁ : Group P₁
  group₂ : Group P₂
  generator : P₁
  generatorNeg : P₁
  hash : Tag → Bytes → P₂
  /-- The pairing before its final exponentiation. -/
  pair : P₂ → P₁ → Except Failure T
  finalExponentiation : T → T

/-- The group that a family of elements lives in. -/
def Suite.group {P₁ P₂ T : Type} (S : Suite P₁ P₂ T) : (f : Family) → Group (f.Point P₁ P₂)
  | .key => S.group₁
  | .signature => S.group₂
  | .proof => S.group₂

/-- A group of curve points with the encodings of its coding. -/
def Coding.group {F : Type} [Zero F] [One F] [Add F] [Sub F] [Mul F] [Neg F] [Div F]
    [DecidableEq F] (C : Coding F) : Group (Point F) where
  toGroupLaw := Point.law
  coordinates p := [p.x, p.y, p.z].map C.coordinate
  ofCoordinates? cs :=
    match cs.mapM C.ofCoordinate? with
    | some [x, y, z] => some ⟨x, y, z⟩
    | _ => none
  encodeAffine := C.encodeAffine
  encodeCompressed := C.encodeCompressed
  decode := C.decode

/-- The suite over BLS12-381 with short public keys. -/
def bls12381 : Suite (Point Fq) (Point Fq2) Fq12 where
  group₁ := coding₁.group
  group₂ := coding₂.group
  generator := generator
  generatorNeg := generator.neg
  hash := ToCurve.hash
  pair := Pairing.pair
  finalExponentiation := Pairing.finalExponentiation

end AggSig
