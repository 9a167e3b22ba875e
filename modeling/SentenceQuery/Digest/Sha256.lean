/-!
# SHA-256

The digest of a text: its UTF-8 bytes are padded to whole blocks of 16 words, and each block is mixed into a state of eight
words in 64 rounds. The words of the rounds are taken from a window that starts as the block and moves on by one word each
round. A digest is written as 64 hexadecimal digits in lower case.
-/

namespace SentenceQuery

/-- The eight words that blocks are mixed into. -/
structure DigestState where
  a : UInt32
  b : UInt32
  c : UInt32
  d : UInt32
  e : UInt32
  f : UInt32
  g : UInt32
  h : UInt32
deriving DecidableEq

namespace DigestState

/-- The state before the first block: the first 32 bits of the fractions of the square roots of the first 8 primes. -/
def initial : DigestState :=
  ⟨0x6a09e667, 0xbb67ae85, 0x3c6ef372, 0xa54ff53a, 0x510e527f, 0x9b05688c, 0x1f83d9ab, 0x5be0cd19⟩

/-- The words of a state in their order. -/
def words (s : DigestState) : List UInt32 := [s.a, s.b, s.c, s.d, s.e, s.f, s.g, s.h]

/-- Two states added word by word. -/
def add (s t : DigestState) : DigestState :=
  ⟨s.a + t.a, s.b + t.b, s.c + t.c, s.d + t.d, s.e + t.e, s.f + t.f, s.g + t.g, s.h + t.h⟩

end DigestState

namespace Sha256

/-- One constant for each round: the first 32 bits of the fractions of the cube roots of the first 64 primes. -/
def roundConstants : List UInt32 := [
  0x428a2f98, 0x71374491, 0xb5c0fbcf, 0xe9b5dba5, 0x3956c25b, 0x59f111f1, 0x923f82a4, 0xab1c5ed5,
  0xd807aa98, 0x12835b01, 0x243185be, 0x550c7dc3, 0x72be5d74, 0x80deb1fe, 0x9bdc06a7, 0xc19bf174,
  0xe49b69c1, 0xefbe4786, 0x0fc19dc6, 0x240ca1cc, 0x2de92c6f, 0x4a7484aa, 0x5cb0a9dc, 0x76f988da,
  0x983e5152, 0xa831c66d, 0xb00327c8, 0xbf597fc7, 0xc6e00bf3, 0xd5a79147, 0x06ca6351, 0x14292967,
  0x27b70a85, 0x2e1b2138, 0x4d2c6dfc, 0x53380d13, 0x650a7354, 0x766a0abb, 0x81c2c92e, 0x92722c85,
  0xa2bfe8a1, 0xa81a664b, 0xc24b8b70, 0xc76c51a3, 0xd192e819, 0xd6990624, 0xf40e3585, 0x106aa070,
  0x19a4c116, 0x1e376c08, 0x2748774c, 0x34b0bcb5, 0x391c0cb3, 0x4ed8aa4a, 0x5b9cca4f, 0x682e6ff3,
  0x748f82ee, 0x78a5636f, 0x84c87814, 0x8cc70208, 0x90befffa, 0xa4506ceb, 0xbef9a3f7, 0xc67178f2]

/-- A word turned right by a number of bits from 1 to 31. -/
def rotateRight (x : UInt32) (bits : UInt32) : UInt32 := (x >>> bits) ||| (x <<< (32 - bits))

/-- Three turns of a word, joined bit by bit. -/
def rotations (x p q r : UInt32) : UInt32 := rotateRight x p ^^^ rotateRight x q ^^^ rotateRight x r

/-- One round, with the constant and the word of the round. -/
def round (s : DigestState) (constant word : UInt32) : DigestState :=
  let choice := (s.e &&& s.f) ^^^ (~~~s.e &&& s.g)
  let majority := (s.a &&& s.b) ^^^ (s.a &&& s.c) ^^^ (s.b &&& s.c)
  let first := s.h + rotations s.e 6 11 25 + choice + constant + word
  let second := rotations s.a 2 13 22 + majority
  ⟨first + second, s.a, s.b, s.c, s.d + first, s.e, s.f, s.g⟩

/-- The word that follows a window of 16 words. -/
def nextWord (window : List UInt32) : UInt32 :=
  let early := window.getD 1 0
  let late := window.getD 14 0
  window.getD 0 0 + (rotateRight early 7 ^^^ rotateRight early 18 ^^^ (early >>> 3)) + window.getD 9 0 +
    (rotateRight late 17 ^^^ rotateRight late 19 ^^^ (late >>> 10))

/-- One round for each of the constants, with the window moving on by one word each time. -/
def rounds : (constants window : List UInt32) → DigestState → DigestState
  | [], _, s => s
  | k :: ks, window, s => rounds ks (window.tail ++ [nextWord window]) (round s k (window.headD 0))

/-- Mixes blocks of 16 words into a state, as many as are counted. -/
def mixBlocks : (count : Nat) → DigestState → List UInt32 → DigestState
  | 0, s, _ => s
  | count + 1, s, words => mixBlocks count (s.add (rounds roundConstants (words.take 16) s)) (words.drop 16)

/-- The last `count` bytes of a number, the highest first. -/
def bigEndian (count n : Nat) : List UInt8 :=
  (List.range count).reverse.map fun i => UInt8.ofNat (n >>> (8 * i))

/-- The bytes, a set bit, as many zeros as fill the last block, and the number of bits in eight bytes. -/
def pad (bytes : List UInt8) : List UInt8 :=
  bytes ++ 0x80 :: (List.replicate ((119 - bytes.length % 64) % 64) 0 ++ bigEndian 8 (8 * bytes.length))

/-- The words of four bytes each, the highest byte first. -/
def toWords : List UInt8 → List UInt32
  | p :: q :: r :: s :: rest =>
    ((p.toUInt32 <<< 24) ||| (q.toUInt32 <<< 16) ||| (r.toUInt32 <<< 8) ||| s.toUInt32) :: toWords rest
  | _ => []

/-- The digest of bytes. -/
def digest (bytes : List UInt8) : DigestState :=
  let words := toWords (pad bytes)
  mixBlocks (words.length / 16) .initial words

/-- A word as eight hexadecimal digits. -/
def hexWord (w : UInt32) : List Char :=
  (List.range 8).reverse.map fun i => Nat.digitChar ((w.toNat >>> (4 * i)) % 16)

/-- The digest of a text in hexadecimal digits. -/
def hexDigest (s : List Char) : List Char :=
  (digest (s.flatMap String.utf8EncodeChar)).words.flatMap hexWord

end Sha256

end SentenceQuery
