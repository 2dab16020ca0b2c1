import FirmwareBundle.Number.Decimal
/-!
# Bare scalars of a TOML text

Truth values, numbers and times are written without quotes. Each of them is one word, but a blank
may stand between a date and a time.

## Main definitions

* `FirmwareBundle.Toml.Scalar` — the values of scalars.
* `FirmwareBundle.Toml.unbarred?` — digits without the bars that may group them.
* `FirmwareBundle.Toml.integer?`, `FirmwareBundle.Toml.float?`, `FirmwareBundle.Toml.isTime`,
  `FirmwareBundle.Toml.isDate`, `FirmwareBundle.Toml.isDateTime` — the forms of words.
* `FirmwareBundle.Toml.Scalar.ofWord?` — the value of a word.
-/

namespace FirmwareBundle.Toml

/-- The value of a scalar. Of a time only the form matters. -/
inductive Scalar where
  | string (text : String)
  | integer (value : Int)
  | float (value : Binary64)
  | boolean (value : Bool)
  | datetime

/-! ## Numbers -/

/-- Digits, as `isDigit` knows them, without the bars between them. Each bar must stand between two
digits. -/
def unbarred? (isDigit : Char → Bool) : List Char → Option (List Char)
  | [] => none
  | [d] => if isDigit d then some [d] else none
  | d :: '_' :: rest => if isDigit d then (unbarred? isDigit rest).map (d :: ·) else none
  | d :: rest => if isDigit d then (unbarred? isDigit rest).map (d :: ·) else none

/-- The decimal digits that `word` consists of; zero is the only number that starts with zero. -/
def wholeDigits? (word : List Char) : Option (List Char) :=
  (unbarred? Char.isDigit word).filter fun digits => digits.length = 1 ∨ digits.head? ≠ some '0'

/-- Splits off a sign: whether it is a minus sign, and what follows. -/
def splitSign : List Char → Bool × List Char
  | '-' :: rest => (true, rest)
  | '+' :: rest => (false, rest)
  | rest => (false, rest)

/-- Whether `n` fits into 64 bits with its sign. -/
def fitsSigned (n : Int) : Bool :=
  -0x8000000000000000 ≤ n && n < 0x8000000000000000

/-- The number that `word` spells in a `base` that is a power of two. -/
def based? (base : Nat) (word : List Char) : Option Nat :=
  (unbarred? (fun c => (Digits.digit? base c).isSome) word).bind (Digits.toNat? base)

/-- The whole number that `word` spells, however great. -/
def unbounded? (word : List Char) : Option Int :=
  match word with
  | '0' :: 'x' :: digits => (based? 16 digits).map fun n => (n : Int)
  | '0' :: 'o' :: digits => (based? 8 digits).map fun n => (n : Int)
  | '0' :: 'b' :: digits => (based? 2 digits).map fun n => (n : Int)
  | word => do
    let (negative, digits) := splitSign word
    let n ← (wholeDigits? digits).bind (Digits.toNat? 10)
    pure (if negative then -(n : Int) else n)

/-- The whole number that `word` spells. One that does not fit into 64 bits is refused. -/
def integer? (word : List Char) : Option Int :=
  (unbounded? word).filter fitsSigned

/-- Whether `c` starts an exponent. -/
def isExponentMark (c : Char) : Bool :=
  c == 'e' || c == 'E'

/-- The characters of a decimal without its bars: digits, then places behind a point, an exponent,
or both. -/
def decimalText? (digits : List Char) : Option (List Char) := do
  let mantissa := digits.takeWhile fun c => !isExponentMark c
  let exponent := digits.drop mantissa.length
  let whole := mantissa.takeWhile (· != '.')
  let places := mantissa.drop whole.length
  guard (places ≠ [] ∨ exponent ≠ [])
  let whole ← wholeDigits? whole
  let places ←
    match places with
    | [] => some []
    | point :: places => (unbarred? Char.isDigit places).map (point :: ·)
  let exponent ←
    match exponent with
    | [] => some []
    | mark :: digits => do
      let (negative, digits) := splitSign digits
      let digits ← unbarred? Char.isDigit digits
      pure (mark :: (if negative then ['-'] else []) ++ digits)
  pure (whole ++ places ++ exponent)

/-- The fractional number that `word` spells. One beyond the range above is refused. -/
def float? (word : List Char) : Option Binary64 := do
  let (negative, magnitude) := splitSign word
  if magnitude = "inf".toList then pure (.infinite negative)
  else if magnitude = "nan".toList then pure .notANumber
  else
    let decimal ← (decimalText? magnitude).bind (Decimal.magnitude? negative)
    guard (decimal.toBinary64 ≠ .infinite false)
    pure decimal.toBinary64

/-! ## Times -/

/-- The number of two digits. -/
def twoDigits? : List Char → Option Nat
  | [a, b] => if a.isDigit ∧ b.isDigit then Digits.toNat? 10 [a, b] else none
  | _ => none

/-- Whether two `digits` spell a number from `low` to `high`. -/
def isWithin (low high : Nat) (digits : List Char) : Bool :=
  (twoDigits? digits).any fun n => low ≤ n && n ≤ high

/-- Whether a word is an hour and a minute. -/
def isClock : List Char → Bool
  | [a, b, ':', c, d] => isWithin 0 23 [a, b] && isWithin 0 59 [c, d]
  | _ => false

/-- Whether `word` is a time of day: hours, minutes, seconds, and perhaps a fraction. -/
def isTime (word : List Char) : Bool :=
  let clock := word.take 5
  match word.drop 5 with
  | [':', a, b] => isClock clock && isWithin 0 60 [a, b]
  | ':' :: a :: b :: '.' :: fraction =>
    isClock clock && isWithin 0 60 [a, b] && !fraction.isEmpty && fraction.all Char.isDigit
  | _ => false

/-- The number of days of a `month` of a `year`. -/
def daysIn (year month : Nat) : Nat :=
  if month = 2 then
    if year % 4 = 0 ∧ (year % 100 ≠ 0 ∨ year % 400 = 0) then 29 else 28
  else if month = 4 ∨ month = 6 ∨ month = 9 ∨ month = 11 then 30
  else 31

/-- Whether a word is a date: year, month and day. -/
def isDate : List Char → Bool
  | [y, z, w, x, '-', a, b, '-', c, d] =>
    [y, z, w, x].all Char.isDigit &&
      match Digits.toNat? 10 [y, z, w, x], twoDigits? [a, b] with
      | some year, some month =>
        1 ≤ month && month ≤ 12 && isWithin 1 (daysIn year month) [c, d]
      | _, _ => false
  | _ => false

/-- The word `word` without the offset from universal time at its end, if it has a valid one. -/
def dropOffset (word : List Char) : List Char :=
  let start := word.length - 6
  match word.getLast?, word.drop start with
  | some 'Z', _ | some 'z', _ => word.dropLast
  | _, sign :: clock =>
    if (sign = '+' ∨ sign = '-') ∧ isClock clock then word.take start else word
  | _, [] => word

/-- Whether `word` is a date with a time of day behind a mark, and perhaps an offset. -/
def isDateTime (word : List Char) : Bool :=
  match word.drop 10 with
  | mark :: time =>
    isDate (word.take 10) && (mark == 'T' || mark == 't' || mark == ' ') && isTime (dropOffset time)
  | [] => false

/-! ## Words -/

/-- The value of `word`. -/
def Scalar.ofWord? (word : List Char) : Option Scalar :=
  if word = "true".toList then some (.boolean true)
  else if word = "false".toList then some (.boolean false)
  else if isTime word ∨ isDate word ∨ isDateTime word then some .datetime
  else
    match float? word, integer? word with
    | some x, _ => some (.float x)
    | none, some n => some (.integer n)
    | none, none => none

end FirmwareBundle.Toml
