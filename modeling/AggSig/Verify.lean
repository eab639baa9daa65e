/-
  Verification of signatures.

  A signature `s` of a message with hash `h` is valid for a public key `k` when the pairings of `h`
  with `k` and of `s` with the generator agree.  That is checked as one product of pairings, with the
  generator negated, under a single final exponentiation.  An identity key never verifies: it would
  accept the identity signature on every message.

  Same-message checks add the keys up first, which is safe only for keys whose possession has been
  proved.  Distinct-message checks pair every key with its own message.  The sharded checks compute the
  same products in another grouping.

  Every check looks at its arguments in a fixed order: the lists and their lengths, the signature, the
  keys, identity keys, then the messages.
-/
import AggSig.Aggregate

namespace AggSig.Suite

variable {P₁ P₂ T : Type} [One T] [Mul T] [DecidableEq T] (S : Suite P₁ P₂ T)

/-! ## The pairing equation -/

/-- The product of the pairings of the pairs, before the final exponentiation. -/
def pairingProduct (pairs : List (P₂ × P₁)) : Except Failure T :=
  pairs.foldlM (fun product (h, k) => (product * ·) <$> S.pair h k) 1

/-- Whether a product of pairings is one after the final exponentiation. -/
def isOne (product : T) : Bool := S.finalExponentiation product = 1

/-- Whether the pairings of the pairs multiply to one. -/
def pairingCheck (pairs : List (P₂ × P₁)) : Except Failure Bool :=
  S.isOne <$> S.pairingProduct pairs

/-- Whether a signature of a hashed message is valid for a key. -/
def coreVerify (key : P₁) (hashed signature : P₂) : Except Failure Bool :=
  if S.group₁.isIdentity key then .ok false
  else S.pairingCheck [(hashed, key), (signature, S.generatorNeg)]

/-! ## One key -/

/-- Whether a signature of a message is valid for a key. -/
def verifySignature (key : P₁) (signature message : Value P₁ P₂) : Except Failure Bool := do
  let s : P₂ ← S.coerce .signature signature false
  S.coreVerify key (← S.hashMessage message) s

/-- Whether a proof shows that the secret key of a key is known. -/
def verifyPossession (key : P₁) (proof : Value P₁ P₂) : Except Failure Bool := do
  let p : P₂ ← S.coerce .proof proof false
  if S.group₁.isIdentity key then return false
  else S.coreVerify key (← S.hashKey key) p

/-- Whether a decoded signature of a message is valid for a key in any form. -/
def verifyWith (signature : P₂) (key message : Value P₁ P₂) : Except Failure Bool := do
  let k : P₁ ← S.coerce .key key false
  S.verifySignature k (.element (.signature signature)) message

/-- Whether a decoded proof shows that the secret key of a key in any form is known. -/
def verifyPossessionWith (proof : P₂) (key : Value P₁ P₂) : Except Failure Bool := do
  let k : P₁ ← S.coerce .key key false
  S.verifyPossession k (.element (.proof proof))

/-! ## One message for all keys -/

/-- Whether an aggregate signature of one message is valid for the sum of the keys.  No keys never
    verify. -/
def fastAggregateVerify (keys message signature : Value P₁ P₂) : Except Failure Bool := do
  let members ← S.items keys
  if members.isEmpty then return false
  else
    let s : P₂ ← S.coerce .signature signature false
    let k : P₁ ← S.aggregateList .key members
    S.verifySignature k (.element (.signature s)) message

/-- Whether the sum of the signatures of one message is valid for the sum of the keys. -/
def verifyAggregate (keys signatures message : Value P₁ P₂) : Except Failure Bool := do
  let k : P₁ ← S.aggregate .key keys
  let s : P₂ ← S.aggregate .signature signatures
  S.verifySignature k (.element (.signature s)) message

/-- The same check, with both sums added in shards. -/
def shardedVerifyAggregate (w : Shard.Workers) (keys signatures message : Value P₁ P₂) :
    Except Failure Bool := do
  let k : P₁ ← S.shardedAggregate w .key keys
  let s : P₂ ← S.shardedAggregate w .signature signatures
  S.verifySignature k (.element (.signature s)) message

/-! ## A message for every key -/

/-- Refuses lists of keys and of messages that do not match or are empty. -/
def checkDistinct (check : ListCheck) (keys messages : List (Value P₁ P₂)) :
    Except Failure Unit :=
  if keys.length ≠ messages.length then
    .error (.lengthsDiffer check keys.length .messages messages.length)
  else if keys.isEmpty then .error (.emptyLists check)
  else .ok ()

/-- Refuses a list of signatures that does not match the keys. -/
def checkSignatures (check : ListCheck) (keys signatures : List (Value P₁ P₂)) :
    Except Failure Unit :=
  if signatures.length ≠ keys.length then
    .error (.lengthsDiffer check keys.length .signatures signatures.length)
  else .ok ()

/-- Whether an aggregate signature is valid for keys that each signed a message of its own. -/
def verifyPairs (keys : List (Value P₁ P₂)) (signature : Value P₁ P₂)
    (messages : List (Value P₁ P₂)) : Except Failure Bool := do
  checkDistinct .distinctAggregated keys messages
  let s : P₂ ← S.coerce .signature signature false
  let points : List P₁ ← S.coerceAll .key keys
  if points.any S.group₁.isIdentity then return false
  else
    let hashes ← messages.mapM S.hashMessage
    S.pairingCheck (hashes.zip points ++ [(s, S.generatorNeg)])

/-- The product of the pairings of messages with keys. -/
def messageProduct (items : List (Bytes × P₁)) : Except Failure T :=
  S.pairingProduct (items.map fun (message, k) => (S.hash .message message, k))

/-- The same product, computed in shards.  Members of the longer list that have no partner are left
    out. -/
def shardedMessageProduct (w : Shard.Workers) (points : List P₁) (messages : List (Value P₁ P₂)) :
    Except Failure T := do
  let contents ← (messages.take points.length).mapM S.bytesOf
  let shards ← Shard.shards w (contents.zip points)
  return (← shards.mapM S.messageProduct).foldl (· * ·) 1

/-- The check for a message of its own for every key, with the product computed in shards. -/
def shardedVerifyPairs (w : Shard.Workers) (keys : List (Value P₁ P₂)) (signature : Value P₁ P₂)
    (messages : List (Value P₁ P₂)) : Except Failure Bool := do
  checkDistinct .shardedDistinctAggregated keys messages
  let s : P₂ ← S.coerce .signature signature false
  let points : List P₁ ← S.coerceAll .key keys
  if points.any S.group₁.isIdentity then return false
  else
    let product ← S.shardedMessageProduct w points messages
    let last ← S.pair s S.generatorNeg
    return S.isOne (product * last)

/-- Whether an aggregate signature is valid for the members of a list of keys and a list of their
    messages. -/
def verifyDistinctAggregated (keys signature messages : Value P₁ P₂) : Except Failure Bool := do
  let ks ← S.items keys
  let ms ← S.items messages
  S.verifyPairs ks signature ms

/-- The same check, which answers no where lists do not match or are empty. -/
def aggregateVerify (keys messages signature : Value P₁ P₂) : Except Failure Bool := do
  let ks ← S.items keys
  let ms ← S.items messages
  match S.verifyPairs ks signature ms with
  | .ok answer => return answer
  | .error failure =>
    if failure.isError .inputLengthMismatch || failure.isError .emptyAggregation then return false
    else throw failure

/-- Whether the sum of one signature for each key is valid for the keys and their messages. -/
def verifyDistinct (keys signatures messages : Value P₁ P₂) : Except Failure Bool := do
  let ks ← S.items keys
  let ss ← S.items signatures
  let ms ← S.items messages
  checkDistinct .distinct ks ms
  checkSignatures .distinct ks ss
  let s : P₂ ← S.aggregateList .signature ss
  S.verifyPairs ks (.element (.signature s)) ms

/-- The sharded check of an aggregate signature for keys and their messages. -/
def shardedVerifyDistinctAggregated (w : Shard.Workers) (keys signature messages : Value P₁ P₂) :
    Except Failure Bool := do
  let ks ← S.items keys
  let ms ← S.items messages
  S.shardedVerifyPairs w ks signature ms

/-- The sharded check of one signature for each key. -/
def shardedVerifyDistinct (w : Shard.Workers) (keys signatures messages : Value P₁ P₂) :
    Except Failure Bool := do
  let ks ← S.items keys
  let ss ← S.items signatures
  let ms ← S.items messages
  checkDistinct .shardedDistinct ks ms
  checkSignatures .shardedDistinct ks ss
  let s : P₂ ← S.aggregateShards w .signature ss
  S.shardedVerifyPairs w ks (.element (.signature s)) ms

end AggSig.Suite
