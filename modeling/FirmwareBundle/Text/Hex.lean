/-!
# Lowercase hexadecimal text

## Main definitions

* `FirmwareBundle.Hex.ofNat` — a number without leading zeros.
* `FirmwareBundle.Hex.prefixed` — the same behind `0x`, as sizes and offsets are shown.
* `FirmwareBundle.Hex.ofBytes` — two digits a byte.
* `FirmwareBundle.Hex.digit?` — the value of a digit of either case.
-/

namespace FirmwareBundle.Hex

/-- The digits of `n`, with no leading zero; zero is `0`. -/
def ofNat (n : Nat) : String :=
  String.ofList (Nat.toDigits 16 n)

/-- The number `n` as `0x` and its digits. -/
def prefixed (n : Nat) : String :=
  "0x" ++ ofNat n

/-- The two digits of the byte `b`. -/
def ofByte (b : UInt8) : List Char :=
  [Nat.digitChar (b.toNat / 16), Nat.digitChar (b.toNat % 16)]

/-- Two digits for every byte, in order. -/
def ofBytes (bytes : List UInt8) : List Char :=
  bytes.flatMap ofByte

/-- The value of the hexadecimal digit `c` of either case. -/
def digit? (c : Char) : Option Nat :=
  if '0' ≤ c ∧ c ≤ '9' then some (c.toNat - '0'.toNat)
  else if 'a' ≤ c ∧ c ≤ 'f' then some (c.toNat - 'a'.toNat + 10)
  else if 'A' ≤ c ∧ c ≤ 'F' then some (c.toNat - 'A'.toNat + 10)
  else none

/-- The number that `digits` spell, most significant first. Any other character among them makes it
fail. -/
def toNat? (digits : List Char) : Option Nat :=
  digits.foldlM (fun n c => (digit? c).map (16 * n + ·)) 0

end FirmwareBundle.Hex
