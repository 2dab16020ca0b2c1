/-!
# Little-endian words and terminators in byte strings

A bundle is a byte string cut in two ways: by the first zero byte, and by four-byte lengths
written least significant byte first.

## Main definitions

* `FirmwareBundle.Bytes.ofLength` — the four bytes of a length below `2 ^ 32`.
* `FirmwareBundle.Bytes.lengthAt` — the length read back at an offset.
* `FirmwareBundle.Bytes.firstZero` — where the first zero byte stands.
-/

namespace FirmwareBundle.Bytes

/-- The number of bytes of a length word. -/
def lengthSize : Nat := 4

/-- The largest length a word can hold. -/
def maxLength : Nat := 0xffffffff

/-- The four bytes of `n` modulo `2 ^ 32`, least significant first. -/
def ofLength (n : Nat) : ByteArray :=
  ⟨#[n.toUInt8, (n / 0x100).toUInt8, (n / 0x10000).toUInt8, (n / 0x1000000).toUInt8]⟩

/-- The byte at `i` as a number, zero past the end. -/
def byteAt (data : ByteArray) (i : Nat) : Nat :=
  if h : i < data.size then data[i].toNat else 0

/-- The number written least significant byte first in the four bytes from `offset` on. -/
def lengthAt (data : ByteArray) (offset : Nat) : Nat :=
  byteAt data offset + 0x100 * byteAt data (offset + 1) +
    0x10000 * byteAt data (offset + 2) + 0x1000000 * byteAt data (offset + 3)

/-- The index of the first zero byte at or after `i`. -/
def firstZeroFrom (data : ByteArray) (i : Nat) : Option Nat :=
  if h : i < data.size then
    if data[i] = 0 then some i else firstZeroFrom data (i + 1)
  else none
termination_by data.size - i

/-- The index of the first zero byte of `data`. -/
def firstZero (data : ByteArray) : Option Nat :=
  firstZeroFrom data 0

end FirmwareBundle.Bytes
