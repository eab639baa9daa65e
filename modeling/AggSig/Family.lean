/-
  The three families of group elements, and the forms they travel in.

  Public keys live in the first group; signatures and proofs of possession both live in the second
  and never stand in for each other.  A wire value is affine or compressed.  The names given here are
  the ones that error messages and printed values show.
-/

namespace AggSig

/-- One of the two source groups of the pairing. -/
inductive Side
  | g1
  | g2
  deriving DecidableEq

/-- The two wire encodings of a point. -/
inductive Form
  | affine
  | compressed
  deriving DecidableEq

/-- The three kinds of group element. -/
inductive Family
  | key
  | signature
  | proof
  deriving DecidableEq

/-- The name of a group. -/
def Side.name : Side → String
  | .g1 => "G1"
  | .g2 => "G2"

/-- The width of a point of the group in bytes: a compressed one holds one coordinate, an affine one
    two, and a coordinate of the second group is twice as wide. -/
def Side.width : Side → Form → Nat
  | .g1, .compressed => 48
  | .g1, .affine => 96
  | .g2, .compressed => 96
  | .g2, .affine => 192

/-- The name of a form. -/
def Form.name : Form → String
  | .affine => "affine"
  | .compressed => "compressed"

namespace Family

/-- The group that the family lives in. -/
def side : Family → Side
  | key => .g1
  | signature => .g2
  | proof => .g2

/-- The width of a wire value of the family. -/
def width (f : Family) (form : Form) : Nat := f.side.width form

/-- The plain name of the family. -/
def name : Family → String
  | key => "Pubkey"
  | signature => "Signature"
  | proof => "ProofOfPossession"

/-- The name of the family's wire values of a form. -/
def wireName (f : Family) : Form → String
  | .affine => f.name
  | .compressed => f.name ++ "Compressed"

/-- The name of the family's decoded elements. -/
def elementName (f : Family) : String := f.name ++ "Projective"

/-- The points that elements of the family are made of, given those of the two groups. -/
abbrev Point (P₁ P₂ : Type) : Family → Type
  | key => P₁
  | signature => P₂
  | proof => P₂

end Family

end AggSig
