import LedgerTx.Bytes.BigEndian
import LedgerTx.Bytes.Fixed

namespace LedgerTx.Sha256

/-! # SHA-256

The hash of FIPS 180-4 over bytes, in words of 32 bits. -/

/-- The round constants. -/
def roundConstants : List UInt32 := [
  0x428a2f98, 0x71374491, 0xb5c0fbcf, 0xe9b5dba5, 0x3956c25b, 0x59f111f1, 0x923f82a4, 0xab1c5ed5,
  0xd807aa98, 0x12835b01, 0x243185be, 0x550c7dc3, 0x72be5d74, 0x80deb1fe, 0x9bdc06a7, 0xc19bf174,
  0xe49b69c1, 0xefbe4786, 0x0fc19dc6, 0x240ca1cc, 0x2de92c6f, 0x4a7484aa, 0x5cb0a9dc, 0x76f988da,
  0x983e5152, 0xa831c66d, 0xb00327c8, 0xbf597fc7, 0xc6e00bf3, 0xd5a79147, 0x06ca6351, 0x14292967,
  0x27b70a85, 0x2e1b2138, 0x4d2c6dfc, 0x53380d13, 0x650a7354, 0x766a0abb, 0x81c2c92e, 0x92722c85,
  0xa2bfe8a1, 0xa81a664b, 0xc24b8b70, 0xc76c51a3, 0xd192e819, 0xd6990624, 0xf40e3585, 0x106aa070,
  0x19a4c116, 0x1e376c08, 0x2748774c, 0x34b0bcb5, 0x391c0cb3, 0x4ed8aa4a, 0x5b9cca4f, 0x682e6ff3,
  0x748f82ee, 0x78a5636f, 0x84c87814, 0x8cc70208, 0x90befffa, 0xa4506ceb, 0xbef9a3f7, 0xc67178f2]

/-- The eight words of a hash under way. -/
structure State where
  a : UInt32
  b : UInt32
  c : UInt32
  d : UInt32
  e : UInt32
  f : UInt32
  g : UInt32
  h : UInt32

/-- The words that hashing begins with. -/
def State.start : State :=
  ⟨0x6a09e667, 0xbb67ae85, 0x3c6ef372, 0xa54ff53a, 0x510e527f, 0x9b05688c, 0x1f83d9ab, 0x5be0cd19⟩

/-- The word-wise sum of two states. -/
def State.add (x y : State) : State :=
  ⟨x.a + y.a, x.b + y.b, x.c + y.c, x.d + y.d, x.e + y.e, x.f + y.f, x.g + y.g, x.h + y.h⟩

/-- The bytes of a state. -/
def State.toBytes (x : State) : FixedBytes 32 :=
  ⟨[x.a, x.b, x.c, x.d, x.e, x.f, x.g, x.h].flatMap fun w => BigEndian.ofNat 4 w.toNat, by simp⟩

/-- A word turned right by `n` bits. -/
def rotateRight (x n : UInt32) : UInt32 :=
  (x >>> n) ||| (x <<< (32 - n))

/-- One round, with the sum of its constant and its message word. -/
def round (s : State) (word : UInt32) : State :=
  let sum1 := rotateRight s.e 6 ^^^ rotateRight s.e 11 ^^^ rotateRight s.e 25
  let choice := (s.e &&& s.f) ^^^ (~~~s.e &&& s.g)
  let t1 := s.h + sum1 + choice + word
  let sum0 := rotateRight s.a 2 ^^^ rotateRight s.a 13 ^^^ rotateRight s.a 22
  let majority := (s.a &&& s.b) ^^^ (s.a &&& s.c) ^^^ (s.b &&& s.c)
  ⟨t1 + (sum0 + majority), s.a, s.b, s.c, s.d + t1, s.e, s.f, s.g⟩

/-- The next word of a message schedule, from the words so far, last word first. -/
def nextWord (words : List UInt32) : UInt32 :=
  -- the words 2, 7, 15 and 16 places back
  let w2 := words.getD 1 0
  let w15 := words.getD 14 0
  let sigma0 := rotateRight w15 7 ^^^ rotateRight w15 18 ^^^ (w15 >>> 3)
  let sigma1 := rotateRight w2 17 ^^^ rotateRight w2 19 ^^^ (w2 >>> 10)
  words.getD 15 0 + sigma0 + words.getD 6 0 + sigma1

/-- Adds `count` words to a message schedule, last word first. -/
def extend : (count : Nat) → List UInt32 → List UInt32
  | 0, words => words
  | count + 1, words => extend count (nextWord words :: words)

/-- The words that the bytes spell, four bytes a word. -/
def wordsOf : List UInt8 → List UInt32
  | a :: b :: c :: d :: rest => UInt32.ofNat (BigEndian.toNat [a, b, c, d]) :: wordsOf rest
  | _ => []

/-- Takes a block of 64 bytes into the hash. -/
def compress (s : State) (block : List UInt8) : State :=
  let schedule := (extend 48 (wordsOf block).reverse).reverse
  s.add ((List.zipWith (· + ·) roundConstants schedule).foldl round s)

/-- Takes `count` blocks into the hash. -/
def compressAll : (count : Nat) → State → List UInt8 → State
  | 0, s, _ => s
  | count + 1, s, bytes => compressAll count (compress s (bytes.take 64)) (bytes.drop 64)

/-- The message, a one bit, zeros, and the length in bits, which together fill whole blocks. -/
def pad (message : List UInt8) : List UInt8 :=
  -- nine bytes more than the zeros are added
  let zeros := (119 - message.length % 64) % 64
  message ++ 0x80 :: List.replicate zeros 0 ++ BigEndian.ofNat 8 (message.length * 8)

/-- The hash of a message. -/
def hash (message : List UInt8) : Bytes32 :=
  let padded := pad message
  (compressAll (padded.length / 64) .start padded).toBytes

end LedgerTx.Sha256
