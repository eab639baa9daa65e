/-
  SHA-256.

  The message is padded to whole blocks of sixteen words.  A block is absorbed in sixty-four rounds;
  each round uses the first word of a window of sixteen and moves the window on by the word that the
  message schedule gives next.
-/
import AggSig.Bytes

namespace AggSig.Sha256

/-- The eight words of the chaining state. -/
structure State where
  a : UInt32
  b : UInt32
  c : UInt32
  d : UInt32
  e : UInt32
  f : UInt32
  g : UInt32
  h : UInt32

/-- The state before any block: the fractional parts of the square roots of the first eight primes. -/
def State.initial : State where
  a := 0x6a09e667
  b := 0xbb67ae85
  c := 0x3c6ef372
  d := 0xa54ff53a
  e := 0x510e527f
  f := 0x9b05688c
  g := 0x1f83d9ab
  h := 0x5be0cd19

/-- The constants of the sixty-four rounds: the fractional parts of the cube roots of the first
    sixty-four primes. -/
def roundConstants : List UInt32 :=
  [0x428a2f98, 0x71374491, 0xb5c0fbcf, 0xe9b5dba5, 0x3956c25b, 0x59f111f1, 0x923f82a4, 0xab1c5ed5,
   0xd807aa98, 0x12835b01, 0x243185be, 0x550c7dc3, 0x72be5d74, 0x80deb1fe, 0x9bdc06a7, 0xc19bf174,
   0xe49b69c1, 0xefbe4786, 0x0fc19dc6, 0x240ca1cc, 0x2de92c6f, 0x4a7484aa, 0x5cb0a9dc, 0x76f988da,
   0x983e5152, 0xa831c66d, 0xb00327c8, 0xbf597fc7, 0xc6e00bf3, 0xd5a79147, 0x06ca6351, 0x14292967,
   0x27b70a85, 0x2e1b2138, 0x4d2c6dfc, 0x53380d13, 0x650a7354, 0x766a0abb, 0x81c2c92e, 0x92722c85,
   0xa2bfe8a1, 0xa81a664b, 0xc24b8b70, 0xc76c51a3, 0xd192e819, 0xd6990624, 0xf40e3585, 0x106aa070,
   0x19a4c116, 0x1e376c08, 0x2748774c, 0x34b0bcb5, 0x391c0cb3, 0x4ed8aa4a, 0x5b9cca4f, 0x682e6ff3,
   0x748f82ee, 0x78a5636f, 0x84c87814, 0x8cc70208, 0x90befffa, 0xa4506ceb, 0xbef9a3f7, 0xc67178f2]

/-- Rotation to the right. -/
def rotate (x k : UInt32) : UInt32 := (x >>> k) ||| (x <<< (32 - k))

/-- The word that follows a window of sixteen in the message schedule. -/
def nextWord (window : List UInt32) : UInt32 :=
  let w (i : Nat) : UInt32 := window.getD i 0
  let s0 := rotate (w 1) 7 ^^^ rotate (w 1) 18 ^^^ (w 1 >>> 3)
  let s1 := rotate (w 14) 17 ^^^ rotate (w 14) 19 ^^^ (w 14 >>> 10)
  w 0 + s0 + w 9 + s1

/-- One round, with its constant and its word of the schedule. -/
def State.round (s : State) (constant word : UInt32) : State :=
  let big1 := rotate s.e 6 ^^^ rotate s.e 11 ^^^ rotate s.e 25
  let choice := (s.e &&& s.f) ^^^ ((~~~s.e) &&& s.g)
  let t1 := s.h + big1 + choice + constant + word
  let big0 := rotate s.a 2 ^^^ rotate s.a 13 ^^^ rotate s.a 22
  let majority := (s.a &&& s.b) ^^^ (s.a &&& s.c) ^^^ (s.b &&& s.c)
  { a := t1 + (big0 + majority), b := s.a, c := s.b, d := s.c
    e := s.d + t1, f := s.e, g := s.f, h := s.g }

/-- The rounds with the given constants, starting from a window of the schedule. -/
def State.rounds (s : State) (window : List UInt32) : List UInt32 → State
  | [] => s
  | constant :: rest =>
    (s.round constant (window.headD 0)).rounds (window.tail ++ [nextWord window]) rest

/-- The state after absorbing a block of sixteen words. -/
def State.absorb (s : State) (block : List UInt32) : State :=
  let t := s.rounds block roundConstants
  { a := s.a + t.a, b := s.b + t.b, c := s.c + t.c, d := s.d + t.d
    e := s.e + t.e, f := s.f + t.f, g := s.g + t.g, h := s.h + t.h }

/-- The message with its padding: a one bit, zeros up to a whole block, and the length in bits. -/
def pad (message : Bytes) : Bytes :=
  let zeros := (119 - message.length % 64) % 64
  message ++ 0x80 :: Bytes.zeros zeros ++ Bytes.ofNat 8 (8 * message.length)

/-- The big-endian words of a byte string whose length is a multiple of four. -/
def words : Bytes → List UInt32
  | a :: b :: c :: d :: rest => UInt32.ofNat (Bytes.toNat [a, b, c, d]) :: words rest
  | _ => []

/-- The state after absorbing `count` blocks of sixteen words each. -/
def State.absorbAll : Nat → State → List UInt32 → State
  | 0, s, _ => s
  | count + 1, s, ws => absorbAll count (s.absorb (ws.take 16)) (ws.drop 16)

/-- The words of the state as bytes. -/
def State.toBytes (s : State) : Bytes :=
  [s.a, s.b, s.c, s.d, s.e, s.f, s.g, s.h].flatMap fun w => Bytes.ofNat 4 w.toNat

/-- The digest of a message: thirty-two bytes. -/
def digest (message : Bytes) : Bytes :=
  let ws := words (pad message)
  (State.absorbAll (ws.length / 16) State.initial ws).toBytes

@[simp] theorem length_digest (message : Bytes) : (digest message).length = 32 := by
  simp [digest, State.toBytes]

end AggSig.Sha256
