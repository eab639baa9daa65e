/-
  Checking many proofs of possession at once.

  Every key and its proof are multiplied by a random weight of their own, and one product of pairings
  is checked for all of them.  Without the weights two invalid proofs could cancel each other out.

  The weights are drawn only after every argument has been decoded and no key is the identity.
-/
import AggSig.Verify

namespace AggSig.Suite

variable {P₁ P₂ T : Type} [One T] [Mul T] [DecidableEq T] (S : Suite P₁ P₂ T)

/-- The bound of the numbers that weights are drawn from; a weight is one more than such a number. -/
def weightBound : Nat := Nat.pow 2 128 - 1

/-- The decoded keys and proofs of two lists. -/
def batchMembers (keys proofs : List (Value P₁ P₂)) : Except Failure (List P₁ × List P₂) := do
  if keys.length ≠ proofs.length then
    throw (.lengthsDiffer .batch keys.length .proofs proofs.length)
  else if keys.isEmpty then throw (.emptyLists .batch)
  else
    let ks : List P₁ ← S.coerceAll .key keys
    let ps : List P₂ ← S.coerceAll .proof proofs
    return (ks, ps)

/-- Whether the weighted keys and proofs satisfy the pairing equation. -/
def weightedCheck (keys : List P₁) (proofs : List P₂) (weights : List Nat) :
    Except Failure Bool := do
  let hashes ← keys.mapM S.hashKey
  let weightedKeys := List.zipWith S.group₁.multiply keys weights
  let weightedProofs := List.zipWith S.group₂.multiply proofs weights
  let sum := S.group₂.sum weightedProofs S.group₂.identity
  S.pairingCheck (hashes.zip weightedKeys ++ [(sum, S.generatorNeg)])

/-- Whether every proof of a list shows that the secret key of the key in its place is known, checked
    with weights from a random source. -/
def batchVerifyLists (keys proofs : List (Value P₁ P₂)) : Drawing (Except Failure Bool) :=
  fun source =>
    match S.batchMembers keys proofs with
    | .error failure => (.error failure, source)
    | .ok (ks, ps) =>
      if ks.any S.group₁.isIdentity then (.ok false, source)
      else
        let (numbers, source) := RandomSource.several weightBound ks.length source
        (S.weightedCheck ks ps (numbers.map (· + 1)), source)

/-- The same check of any two values that can be walked. -/
def batchVerify (keys proofs : Value P₁ P₂) : Drawing (Except Failure Bool) := fun source =>
  match S.items keys, S.items proofs with
  | .ok ks, .ok ps => S.batchVerifyLists ks ps source
  | .error failure, _ => (.error failure, source)
  | _, .error failure => (.error failure, source)

end AggSig.Suite
