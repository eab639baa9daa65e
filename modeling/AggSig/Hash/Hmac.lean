/-
  Keyed digests, and key material derived from them.

  `hmac` is the keyed SHA-256 digest; `expand` stretches a key to any number of bytes by chaining
  keyed digests, each over the one before it, a label and a counter.
-/
import AggSig.Hash.Sha256

namespace AggSig.Sha256

/-- The bytes combined one by one with a constant. -/
def mask (constant : UInt8) (bs : Bytes) : Bytes := bs.map (constant ^^^ ·)

/-- A key at the width of a block: one that is longer is digested first. -/
def blockKey (key : Bytes) : Bytes :=
  let short := if key.length > 64 then digest key else key
  short ++ Bytes.zeros (64 - short.length)

/-- The digest of a message under a key. -/
def hmac (key message : Bytes) : Bytes :=
  let k := blockKey key
  digest (mask 0x5c k ++ digest (mask 0x36 k ++ message))

/-- `count` chained digests under a key, the first one with the given counter. -/
def chain (key label : Bytes) : (count counter : Nat) → (last : Bytes) → Bytes
  | 0, _, _ => []
  | count + 1, counter, last =>
    let next := hmac key (last ++ label ++ [UInt8.ofNat counter])
    next ++ chain key label count (counter + 1) next

/-- `width` bytes derived from a key under a label. -/
def expand (key label : Bytes) (width : Nat) : Bytes :=
  (chain key label ((width + 31) / 32) 1 []).take width

@[simp] theorem length_hmac (key message : Bytes) : (hmac key message).length = 32 := by
  simp [hmac]

end AggSig.Sha256
