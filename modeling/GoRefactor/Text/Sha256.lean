/-!
# SHA-256

The 256-bit secure hash of a byte string, in hexadecimal. Edits carry the hash of the text they
expect to replace, and a saved manifest the hash of each file.
-/

namespace GoRefactor.Sha256

/-- Round constants: the first 32 bits of the fractional parts of the cube roots of the first
sixty-four primes. -/
def roundConstants : Array UInt32 :=
  #[0x428a2f98, 0x71374491, 0xb5c0fbcf, 0xe9b5dba5, 0x3956c25b, 0x59f111f1, 0x923f82a4, 0xab1c5ed5,
    0xd807aa98, 0x12835b01, 0x243185be, 0x550c7dc3, 0x72be5d74, 0x80deb1fe, 0x9bdc06a7, 0xc19bf174,
    0xe49b69c1, 0xefbe4786, 0x0fc19dc6, 0x240ca1cc, 0x2de92c6f, 0x4a7484aa, 0x5cb0a9dc, 0x76f988da,
    0x983e5152, 0xa831c66d, 0xb00327c8, 0xbf597fc7, 0xc6e00bf3, 0xd5a79147, 0x06ca6351, 0x14292967,
    0x27b70a85, 0x2e1b2138, 0x4d2c6dfc, 0x53380d13, 0x650a7354, 0x766a0abb, 0x81c2c92e, 0x92722c85,
    0xa2bfe8a1, 0xa81a664b, 0xc24b8b70, 0xc76c51a3, 0xd192e819, 0xd6990624, 0xf40e3585, 0x106aa070,
    0x19a4c116, 0x1e376c08, 0x2748774c, 0x34b0bcb5, 0x391c0cb3, 0x4ed8aa4a, 0x5b9cca4f, 0x682e6ff3,
    0x748f82ee, 0x78a5636f, 0x84c87814, 0x8cc70208, 0x90befffa, 0xa4506ceb, 0xbef9a3f7, 0xc67178f2]

/-- The eight working words. -/
structure State where
  a : UInt32
  b : UInt32
  c : UInt32
  d : UInt32
  e : UInt32
  f : UInt32
  g : UInt32
  h : UInt32
deriving DecidableEq, Repr, Inhabited

/-- The first 32 bits of the fractional parts of the square roots of the first eight primes. -/
def start : State :=
  ⟨0x6a09e667, 0xbb67ae85, 0x3c6ef372, 0xa54ff53a, 0x510e527f, 0x9b05688c, 0x1f83d9ab, 0x5be0cd19⟩

/-- Rotate a word to the right. -/
def rotateRight (word : UInt32) (count : UInt32) : UInt32 :=
  (word >>> count) ||| (word <<< (32 - count))

/-- Join four bytes, most significant first. -/
def joinWord (b0 b1 b2 b3 : UInt8) : UInt32 :=
  (b0.toUInt32 <<< 24) ||| (b1.toUInt32 <<< 16) ||| (b2.toUInt32 <<< 8) ||| b3.toUInt32

/-- Group bytes into words; leftover bytes are dropped. -/
def wordsOf : List UInt8 → List UInt32
  | b0 :: b1 :: b2 :: b3 :: rest => joinWord b0 b1 b2 b3 :: wordsOf rest
  | _ => []

/-- Split a number into `count` bytes, most significant first. -/
def bigEndian (count value : Nat) : List UInt8 :=
  (List.range count).reverse.map fun place => (value >>> (8 * place)).toUInt8

/-- Bytes followed by a one bit, zeros up to eight bytes before a block's end, and the length. -/
def padded (bytes : List UInt8) : List UInt8 :=
  let zeros := (119 - bytes.length % 64) % 64
  bytes ++ [0x80] ++ List.replicate zeros 0 ++ bigEndian 8 (bytes.length * 8)

/-- The next word of the message schedule. -/
def scheduleWord (words : Array UInt32) : UInt32 :=
  let back (distance : Nat) := words.getD (words.size - distance) 0
  let w15 := back 15
  let w2 := back 2
  let s0 := rotateRight w15 7 ^^^ rotateRight w15 18 ^^^ (w15 >>> 3)
  let s1 := rotateRight w2 17 ^^^ rotateRight w2 19 ^^^ (w2 >>> 10)
  back 16 + s0 + back 7 + s1

/-- The sixty-four words of the message schedule of one block. -/
def schedule (block : List UInt32) : Array UInt32 :=
  (List.range 48).foldl (fun words _ => words.push (scheduleWord words)) block.toArray

/-- One round of the compression function. -/
def round (state : State) (constant word : UInt32) : State :=
  let s1 := rotateRight state.e 6 ^^^ rotateRight state.e 11 ^^^ rotateRight state.e 25
  let choice := (state.e &&& state.f) ^^^ ((~~~ state.e) &&& state.g)
  let t1 := state.h + s1 + choice + constant + word
  let s0 := rotateRight state.a 2 ^^^ rotateRight state.a 13 ^^^ rotateRight state.a 22
  let majority := (state.a &&& state.b) ^^^ (state.a &&& state.c) ^^^ (state.b &&& state.c)
  ⟨t1 + (s0 + majority), state.a, state.b, state.c, state.d + t1, state.e, state.f, state.g⟩

/-- Mix one block of sixteen words into the state. -/
def compress (state : State) (block : List UInt32) : State :=
  let mixed := (roundConstants.zip (schedule block)).foldl
    (fun current pair => round current pair.1 pair.2) state
  ⟨state.a + mixed.a, state.b + mixed.b, state.c + mixed.c, state.d + mixed.d,
    state.e + mixed.e, state.f + mixed.f, state.g + mixed.g, state.h + mixed.h⟩

/-- Mix the words into the state, sixteen at a time, for at most `blocks` blocks. -/
def compressAll (state : State) : Nat → List UInt32 → State
  | 0, _ => state
  | blocks + 1, words => compressAll (compress state (words.take 16)) blocks (words.drop 16)

/-- The digest as eight words. -/
def digest (bytes : List UInt8) : State :=
  let words := wordsOf (padded bytes)
  compressAll start (words.length / 16) words

/-- A word as eight hexadecimal digits. -/
def hexWord (word : UInt32) : List Char :=
  (List.range 8).reverse.map fun place => Nat.digitChar ((word.toNat >>> (4 * place)) % 16)

/-- The digest of a byte string in hexadecimal. -/
def hex (bytes : List UInt8) : String :=
  let state := digest bytes
  String.ofList (List.flatMap hexWord
    [state.a, state.b, state.c, state.d, state.e, state.f, state.g, state.h])

end GoRefactor.Sha256

namespace GoRefactor

/-- Hexadecimal SHA-256 of the UTF-8 form of a text. -/
def sha256 (text : String) : String := Sha256.hex text.toUTF8.toList

end GoRefactor
