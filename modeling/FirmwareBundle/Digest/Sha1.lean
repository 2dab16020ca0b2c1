/-!
# The SHA-1 hash function

A message is padded to whole 64-byte blocks, and each block is mixed into five 32-bit words in
eighty rounds.

## Main definitions

* `FirmwareBundle.Sha1.pad` — the message with its length appended, a whole number of blocks.
* `FirmwareBundle.Sha1.compress` — one block mixed into the state.
* `FirmwareBundle.Sha1.hash` — the twenty bytes of the hash.
-/

namespace FirmwareBundle.Sha1

/-- The five chaining words. -/
structure State where
  a : UInt32
  b : UInt32
  c : UInt32
  d : UInt32
  e : UInt32

/-- The chaining words before the first block. -/
def initial : State :=
  ⟨0x67452301, 0xEFCDAB89, 0x98BADCFE, 0x10325476, 0xC3D2E1F0⟩

/-- The word `x` turned left by `n` bits. -/
@[inline] def rotateLeft (x n : UInt32) : UInt32 :=
  (x <<< n) ||| (x >>> (32 - n))

/-- The byte of `data` at `i` as a word, zero past the end. -/
@[inline] def byteAt (data : ByteArray) (i : Nat) : UInt32 :=
  if h : i < data.size then data[i].toUInt32 else 0

/-- The word in the four bytes of `data` from `i` on, most significant first. -/
@[inline] def wordAt (data : ByteArray) (i : Nat) : UInt32 :=
  (byteAt data i <<< 24) ||| (byteAt data (i + 1) <<< 16) |||
    (byteAt data (i + 2) <<< 8) ||| byteAt data (i + 3)

/-- The sixteen words of the block of `data` at `offset`. -/
def blockWords (data : ByteArray) (offset : Nat) : Array UInt32 :=
  Nat.fold 16 (fun t _ w => w.push (wordAt data (offset + 4 * t))) (Array.emptyWithCapacity 80)

/-- The eighty words of the schedule of the block at `offset`. Each word behind the first sixteen
folds four earlier ones. -/
def schedule (data : ByteArray) (offset : Nat) : Array UInt32 :=
  Nat.fold 64 (fun t _ w => w.push (rotateLeft
      (w.getD (t + 13) 0 ^^^ w.getD (t + 8) 0 ^^^ w.getD (t + 2) 0 ^^^ w.getD t 0) 1))
    (blockWords data offset)

/-- The round function in round `t`: a choice, a parity or a majority of the words `b`, `c` and
`d`. -/
@[inline] def mix (t : Nat) (b c d : UInt32) : UInt32 :=
  if t < 20 then (b &&& c) ||| ((~~~ b) &&& d)
  else if t < 40 then b ^^^ c ^^^ d
  else if t < 60 then (b &&& c) ||| (b &&& d) ||| (c &&& d)
  else b ^^^ c ^^^ d

/-- The constant of round `t`. -/
@[inline] def roundConstant (t : Nat) : UInt32 :=
  if t < 20 then 0x5A827999
  else if t < 40 then 0x6ED9EBA1
  else if t < 60 then 0x8F1BBCDC
  else 0xCA62C1D6

/-- The last `n` of the eighty rounds, with the words `w` of the schedule. -/
def rounds (w : Array UInt32) : (n : Nat) → (a b c d e : UInt32) → State
  | 0, a, b, c, d, e => ⟨a, b, c, d, e⟩
  | n + 1, a, b, c, d, e =>
    let t := 79 - n
    rounds w n (rotateLeft a 5 + mix t b c d + e + roundConstant t + w.getD t 0)
      a (rotateLeft b 30) c d

/-- The state `s` with the block of `data` at `offset` mixed into it. -/
def compress (data : ByteArray) (s : State) (offset : Nat) : State :=
  let r := rounds (schedule data offset) 80 s.a s.b s.c s.d s.e
  ⟨s.a + r.a, s.b + r.b, s.c + r.c, s.d + r.d, s.e + r.e⟩

/-- The four bytes of the word `w`, most significant first. -/
def wordBytes (w : UInt32) : List UInt8 :=
  [(w >>> 24).toUInt8, (w >>> 16).toUInt8, (w >>> 8).toUInt8, w.toUInt8]

/-- The number of zero bytes between the end mark and the length of a message of `n` bytes. -/
def gap (n : Nat) : Nat :=
  (119 - n % 64) % 64

/-- The message `data`, a one bit, zeros, and the number of its bits in eight bytes. Its size is a
multiple of 64. -/
def pad (data : ByteArray) : ByteArray :=
  let bits := 8 * data.size
  let tail : List UInt8 := 0x80 :: List.replicate (gap data.size) 0 ++
    wordBytes (bits / 0x100000000).toUInt32 ++ wordBytes bits.toUInt32
  data ++ ⟨tail.toArray⟩

/-- The chaining words after all blocks of `data`. -/
def finalState (data : ByteArray) : State :=
  let message := pad data
  Nat.fold (message.size / 64) (fun i _ s => compress message s (64 * i)) initial

/-- The twenty bytes of the hash of `data`. -/
def hash (data : ByteArray) : List UInt8 :=
  let s := finalState data
  wordBytes s.a ++ wordBytes s.b ++ wordBytes s.c ++ wordBytes s.d ++ wordBytes s.e

end FirmwareBundle.Sha1
