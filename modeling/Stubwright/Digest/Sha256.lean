import Stubwright.Text.Classes

/-!
# SHA-256

The digest of a sequence of bytes, as the standard FIPS 180-4 defines it: the message is padded to
blocks of 64 bytes, each block is spread over 64 words, and the words are mixed into eight words
of state, one a round.
-/

namespace Stubwright.Sha256

/-- The eight words of state. -/
structure State where
  a : UInt32
  b : UInt32
  c : UInt32
  d : UInt32
  e : UInt32
  f : UInt32
  g : UInt32
  h : UInt32

/-- The state before the first block. -/
def State.start : State :=
  ⟨0x6a09e667, 0xbb67ae85, 0x3c6ef372, 0xa54ff53a, 0x510e527f, 0x9b05688c, 0x1f83d9ab, 0x5be0cd19⟩

/-- The words of a state, in order. -/
def State.words (s : State) : List UInt32 := [s.a, s.b, s.c, s.d, s.e, s.f, s.g, s.h]

/-- The sum of two states, word by word. -/
def State.add (s t : State) : State :=
  ⟨s.a + t.a, s.b + t.b, s.c + t.c, s.d + t.d, s.e + t.e, s.f + t.f, s.g + t.g, s.h + t.h⟩

/-- The constant of each round. -/
def roundConstants : List UInt32 :=
  [
    0x428a2f98, 0x71374491, 0xb5c0fbcf, 0xe9b5dba5, 0x3956c25b, 0x59f111f1, 0x923f82a4,
    0xab1c5ed5, 0xd807aa98, 0x12835b01, 0x243185be, 0x550c7dc3, 0x72be5d74, 0x80deb1fe,
    0x9bdc06a7, 0xc19bf174, 0xe49b69c1, 0xefbe4786, 0x0fc19dc6, 0x240ca1cc, 0x2de92c6f,
    0x4a7484aa, 0x5cb0a9dc, 0x76f988da, 0x983e5152, 0xa831c66d, 0xb00327c8, 0xbf597fc7,
    0xc6e00bf3, 0xd5a79147, 0x06ca6351, 0x14292967, 0x27b70a85, 0x2e1b2138, 0x4d2c6dfc,
    0x53380d13, 0x650a7354, 0x766a0abb, 0x81c2c92e, 0x92722c85, 0xa2bfe8a1, 0xa81a664b,
    0xc24b8b70, 0xc76c51a3, 0xd192e819, 0xd6990624, 0xf40e3585, 0x106aa070, 0x19a4c116,
    0x1e376c08, 0x2748774c, 0x34b0bcb5, 0x391c0cb3, 0x4ed8aa4a, 0x5b9cca4f, 0x682e6ff3,
    0x748f82ee, 0x78a5636f, 0x84c87814, 0x8cc70208, 0x90befffa, 0xa4506ceb, 0xbef9a3f7,
    0xc67178f2]

/-- A word rotated to the right. -/
def rotateRight (x n : UInt32) : UInt32 := (x >>> n) ||| (x <<< (32 - n))

/-- The message with a one bit, zero bits up to eight bytes before the end of a block, and its
length in bits. -/
def padded (message : List UInt8) : List UInt8 :=
  let size := message.length
  -- One byte for the first bit and eight for the length: `size + 9 + zeros` is a whole block.
  let zeros := (119 - size % 64) % 64
  let length := (List.range 8).map fun i => (8 * size / Nat.pow 256 (7 - i)).toUInt8
  message ++ 0x80 :: List.replicate zeros 0 ++ length

/-- Bytes taken together four at a time, the highest first. -/
def wordsOfBytes : List UInt8 → List UInt32
  | a :: b :: c :: d :: rest =>
    ((a.toUInt32 <<< 24) ||| (b.toUInt32 <<< 16) ||| (c.toUInt32 <<< 8) ||| d.toUInt32)
      :: wordsOfBytes rest
  | _ => []

/-- Words taken together sixteen at a time, in at most `rounds` blocks. -/
def blocks : Nat → List UInt32 → List (List UInt32)
  | 0, _ | _, [] => []
  | rounds + 1, words => words.take 16 :: blocks rounds (words.drop 16)

/-- The word that follows those of a schedule. -/
def nextWord (schedule : Array UInt32) : UInt32 :=
  let before := fun k => schedule.getD (schedule.size - k) 0
  let x := before 15
  let y := before 2
  let small0 := rotateRight x 7 ^^^ rotateRight x 18 ^^^ (x >>> 3)
  let small1 := rotateRight y 17 ^^^ rotateRight y 19 ^^^ (y >>> 10)
  before 16 + small0 + before 7 + small1

/-- A schedule with `count` more words. -/
def extendSchedule : Nat → Array UInt32 → Array UInt32
  | 0, schedule => schedule
  | count + 1, schedule => extendSchedule count (schedule.push (nextWord schedule))

/-- One round: mixes a word of the schedule and the constant of the round into the state. -/
def round (s : State) (input : UInt32 × UInt32) : State :=
  let big1 := rotateRight s.e 6 ^^^ rotateRight s.e 11 ^^^ rotateRight s.e 25
  let choice := (s.e &&& s.f) ^^^ (~~~s.e &&& s.g)
  let t1 := s.h + big1 + choice + input.1 + input.2
  let big0 := rotateRight s.a 2 ^^^ rotateRight s.a 13 ^^^ rotateRight s.a 22
  let majority := (s.a &&& s.b) ^^^ (s.a &&& s.c) ^^^ (s.b &&& s.c)
  ⟨t1 + big0 + majority, s.a, s.b, s.c, s.d + t1, s.e, s.f, s.g⟩

/-- Mixes a block of sixteen words into the state. -/
def compress (s : State) (block : List UInt32) : State :=
  let schedule := extendSchedule 48 block.toArray
  s.add ((roundConstants.zip schedule.toList).foldl round s)

/-- The state after a message. -/
def run (message : List UInt8) : State :=
  let words := wordsOfBytes (padded message)
  (blocks words.length words).foldl compress State.start

/-- The eight hexadecimal digits of a word. -/
def hexWord (word : UInt32) : List Char :=
  (List.range 8).map fun i => Text.hexDigit (word.toNat / Nat.pow 16 (7 - i) % 16)

/-- The digest of a message in hexadecimal digits. -/
def hexDigest (message : List UInt8) : String :=
  String.ofList ((run message).words.flatMap hexWord)

/-- The digest of the UTF-8 form of a text, with the name of the algorithm before it. -/
def fingerprint (text : String) : String := "sha256:" ++ hexDigest text.toUTF8.data.toList

/-- A digest has 64 digits. -/
theorem length_hexDigest (message : List UInt8) : (hexDigest message).length = 64 := by
  simp [hexDigest, State.words, hexWord]

end Stubwright.Sha256
