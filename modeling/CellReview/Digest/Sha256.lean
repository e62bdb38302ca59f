/-!
# SHA-256

The secure hash with 256 bits over byte sequences, used as the fingerprint of a
cell's code.  It stands for a library that is used as it is, and follows the published algorithm:
the padding, the schedule and the rounds of each block, with the words in big-endian order.  Where
a result has to tell texts apart by their fingerprints, that their hashes differ is a hypothesis.

* `pad` — a message followed by `0x80`, zeros and its length in bits;
* `schedule` — the sixty-four words of a block;
* `compress` — one block folded into the chaining state;
* `digest` — the thirty-two bytes of the hash;
* `fingerprint` — their hexadecimal text for a text in UTF-8.
-/

namespace CellReview.Digest

/-! ## Constants -/

/-- The sixty-four round constants. -/
def roundConstants : Array UInt32 := #[
  0x428a2f98, 0x71374491, 0xb5c0fbcf, 0xe9b5dba5, 0x3956c25b, 0x59f111f1, 0x923f82a4, 0xab1c5ed5,
  0xd807aa98, 0x12835b01, 0x243185be, 0x550c7dc3, 0x72be5d74, 0x80deb1fe, 0x9bdc06a7, 0xc19bf174,
  0xe49b69c1, 0xefbe4786, 0x0fc19dc6, 0x240ca1cc, 0x2de92c6f, 0x4a7484aa, 0x5cb0a9dc, 0x76f988da,
  0x983e5152, 0xa831c66d, 0xb00327c8, 0xbf597fc7, 0xc6e00bf3, 0xd5a79147, 0x06ca6351, 0x14292967,
  0x27b70a85, 0x2e1b2138, 0x4d2c6dfc, 0x53380d13, 0x650a7354, 0x766a0abb, 0x81c2c92e, 0x92722c85,
  0xa2bfe8a1, 0xa81a664b, 0xc24b8b70, 0xc76c51a3, 0xd192e819, 0xd6990624, 0xf40e3585, 0x106aa070,
  0x19a4c116, 0x1e376c08, 0x2748774c, 0x34b0bcb5, 0x391c0cb3, 0x4ed8aa4a, 0x5b9cca4f, 0x682e6ff3,
  0x748f82ee, 0x78a5636f, 0x84c87814, 0x8cc70208, 0x90befffa, 0xa4506ceb, 0xbef9a3f7, 0xc67178f2]

/-- The eight words of the chaining state. -/
structure State where
  (a b c d e f g h : UInt32)
  deriving DecidableEq, Repr

/-- The state before the first block. -/
def State.start : State :=
  ⟨0x6a09e667, 0xbb67ae85, 0x3c6ef372, 0xa54ff53a,
    0x510e527f, 0x9b05688c, 0x1f83d9ab, 0x5be0cd19⟩

/-! ## Padding -/

/-- The zeros that complete the last block of a message of `size` bytes. -/
def paddingZeros (size : Nat) : Nat :=
  (119 - size % 64) % 64

/-- The eight bytes of a number, the highest first. -/
def bigEndian8 (n : Nat) : List UInt8 :=
  [56, 48, 40, 32, 24, 16, 8, 0].map fun shift => UInt8.ofNat (n >>> shift)

/-- A message followed by `0x80`, zeros and its length in bits: a whole number of blocks. -/
def pad (message : ByteArray) : ByteArray :=
  let tail := 0x80 :: List.replicate (paddingZeros message.size) 0 ++ bigEndian8 (8 * message.size)
  tail.foldl ByteArray.push message

/-! ## The round function -/

/-- Rotate a word to the right. -/
def rotateRight (x : UInt32) (n : UInt32) : UInt32 :=
  (x >>> n) ||| (x <<< (32 - n))

/-- The word of four bytes at an offset, the highest byte first. -/
def wordAt (bytes : ByteArray) (offset : Nat) : UInt32 :=
  let byte (i : Nat) : UInt32 := (bytes.get! (offset + i)).toUInt32
  (byte 0 <<< 24) ||| (byte 1 <<< 16) ||| (byte 2 <<< 8) ||| byte 3

/-- Append the word that follows the words so far. -/
def nextWord (words : Array UInt32) (i : Nat) : Array UInt32 :=
  let word (back : Nat) : UInt32 := words.getD (i - back) 0
  let s0 := rotateRight (word 15) 7 ^^^ rotateRight (word 15) 18 ^^^ (word 15 >>> 3)
  let s1 := rotateRight (word 2) 17 ^^^ rotateRight (word 2) 19 ^^^ (word 2 >>> 10)
  words.push (word 16 + s0 + word 7 + s1)

/-- The sixty-four words of the block at an offset. -/
def schedule (bytes : ByteArray) (offset : Nat) : Array UInt32 :=
  let input := (Array.range 16).map fun i => wordAt bytes (offset + 4 * i)
  (List.range 48).foldl (fun words i => nextWord words (16 + i)) input

/-- One round, with its constant and schedule word already added up. -/
def State.round (s : State) (word : UInt32) : State :=
  let s1 := rotateRight s.e 6 ^^^ rotateRight s.e 11 ^^^ rotateRight s.e 25
  let choice := (s.e &&& s.f) ^^^ ((s.e ^^^ 0xffffffff) &&& s.g)
  let t1 := s.h + s1 + choice + word
  let s0 := rotateRight s.a 2 ^^^ rotateRight s.a 13 ^^^ rotateRight s.a 22
  let majority := (s.a &&& s.b) ^^^ (s.a &&& s.c) ^^^ (s.b &&& s.c)
  ⟨t1 + s0 + majority, s.a, s.b, s.c, s.d + t1, s.e, s.f, s.g⟩

/-- The sum of two states, word by word. -/
def State.add (s t : State) : State :=
  ⟨s.a + t.a, s.b + t.b, s.c + t.c, s.d + t.d, s.e + t.e, s.f + t.f, s.g + t.g, s.h + t.h⟩

/-- Fold the block at an offset into the state. -/
def compress (bytes : ByteArray) (s : State) (offset : Nat) : State :=
  let words := schedule bytes offset
  let mixed := (List.range 64).foldl
    (fun t i => t.round (roundConstants.getD i 0 + words.getD i 0)) s
  s.add mixed

/-! ## The hash -/

/-- The four bytes of a word, the highest first. -/
def wordBytes (x : UInt32) : List UInt8 :=
  [(x >>> 24).toUInt8, (x >>> 16).toUInt8, (x >>> 8).toUInt8, x.toUInt8]

/-- The thirty-two bytes of the hash of a message. -/
def digest (message : ByteArray) : List UInt8 :=
  let padded := pad message
  let s := (List.range (padded.size / 64)).foldl (fun s i => compress padded s (64 * i)) .start
  [s.a, s.b, s.c, s.d, s.e, s.f, s.g, s.h].flatMap wordBytes

/-- The two lower-case hexadecimal digits of a byte. -/
def hexByte (b : UInt8) : List Char :=
  [Nat.digitChar (b.toNat / 16), Nat.digitChar (b.toNat % 16)]

/-- The hexadecimal hash of a text. -/
def fingerprint (code : String) : String :=
  String.ofList ((digest code.toUTF8).flatMap hexByte)

end CellReview.Digest
