import FirmwareBundle.Number.Binary64
import FirmwareBundle.Text.Hex
/-!
# Numbers written in digits

## Main definitions

* `FirmwareBundle.Digits.toNat?` — the number that digits of a base spell.
* `FirmwareBundle.Decimal` — a signed decimal with a scale.
* `FirmwareBundle.Decimal.ofText?` — reads digits with a point, an exponent, or both.
* `FirmwareBundle.Decimal.toBinary64` — the nearest number of 64 bits.
-/

namespace FirmwareBundle

/-! ## Digits of a base -/

namespace Digits

/-- The value of `c` as a digit of a `base` up to sixteen. -/
def digit? (base : Nat) (c : Char) : Option Nat :=
  (Hex.digit? c).filter (· < base)

/-- The number that one or more `digits` spell in a `base`, most significant first. -/
def toNat? (base : Nat) (digits : List Char) : Option Nat :=
  if digits.isEmpty then none
  else digits.foldlM (fun n c => (digit? base c).map (base * n + ·)) 0

end Digits

/-! ## Decimals -/

/-- The number `digits * 10 ^ scale` with a sign. -/
structure Decimal where
  negative : Bool
  digits : Nat
  scale : Int
  deriving DecidableEq

namespace Decimal

/-- The exponent that a text spells, zero if there is no text; a letter starts it. -/
def exponent? : List Char → Option Int
  | [] => some 0
  | 'e' :: rest | 'E' :: rest =>
    match rest with
    | '-' :: digits => (Digits.toNat? 10 digits).map fun n => -(n : Int)
    | '+' :: digits => (Digits.toNat? 10 digits).map fun n => (n : Int)
    | digits => (Digits.toNat? 10 digits).map fun n => (n : Int)
  | _ => none

/-- The digits of `text` with a point among them or beside them, then perhaps an exponent. -/
def magnitude? (negative : Bool) (text : List Char) : Option Decimal :=
  let whole := text.takeWhile Char.isDigit
  let afterWhole := text.drop whole.length
  let (places, tail) :=
    match afterWhole with
    | '.' :: rest => (rest.takeWhile Char.isDigit, rest.dropWhile Char.isDigit)
    | rest => ([], rest)
  match Digits.toNat? 10 (whole ++ places), exponent? tail with
  | some digits, some e => some ⟨negative, digits, e - places.length⟩
  | _, _ => none

/-- Reads a decimal; a minus sign may stand before it. -/
def ofText? : List Char → Option Decimal
  | '-' :: rest => magnitude? true rest
  | text => magnitude? false text

/-- The number of 64 bits nearest to the decimal `d`. -/
def toBinary64 (d : Decimal) : Binary64 :=
  Binary64.ofDecimal d.negative d.digits d.scale

end Decimal

end FirmwareBundle
