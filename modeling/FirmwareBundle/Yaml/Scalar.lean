import FirmwareBundle.Number.Decimal
import FirmwareBundle.Yaml.Node
import FirmwareBundle.Yaml.Value
/-!
# The meaning of scalars

A plain scalar without a tag is null, a truth value, a number or a text, by its spelling alone.
Other scalars are texts. A tag of one of the four types asks for that reading, whatever the style.

## Main definitions

* `FirmwareBundle.Yaml.integer?` — whole numbers in four bases.
* `FirmwareBundle.Yaml.float?` — decimals, infinities and what is no number.
* `FirmwareBundle.Yaml.Value.ofPlain?` — the meaning of a plain scalar.
* `FirmwareBundle.Yaml.Value.ofScalar?` — the meaning of a scalar with its tag.

## Implementation notes

Whole numbers that need more than 64 bits are refused if 128 bits are enough for them; beyond that
they are read as decimals.
-/

namespace FirmwareBundle.Yaml

/-! ## Spellings -/

/-- Whether `text` is one of the spellings of null; the empty text is one of them, too, where
nothing is written. -/
def isNull (text : String) : Bool :=
  text == "null" || text == "Null" || text == "NULL" || text == "~"

/-- The truth value that `text` spells. -/
def boolean? (text : String) : Option Bool :=
  if text = "true" ∨ text = "True" ∨ text = "TRUE" then some true
  else if text = "false" ∨ text = "False" ∨ text = "FALSE" then some false
  else none

/-- Whether `text` is several digits that start with zero, behind at most one sign. Such a text is
no number. -/
def isZeroPadded (text : List Char) : Bool :=
  let digits :=
    match text with
    | '-' :: rest | '+' :: rest => rest
    | rest => rest
  match digits with
  | '0' :: c :: rest => (c :: rest).all Char.isDigit
  | _ => false

/-- The number of digits behind the mark of a base, or of decimal digits without one. -/
def natural? : List Char → Option Nat
  | '0' :: 'x' :: digits => Digits.toNat? 16 digits
  | '0' :: 'o' :: digits => Digits.toNat? 8 digits
  | '0' :: 'b' :: digits => Digits.toNat? 2 digits
  | digits => Digits.toNat? 10 digits

/-- The whole number that `text` spells; its sign stands before the mark of the base. -/
def integer? (text : List Char) : Option Int :=
  if isZeroPadded text then none
  else
    match text with
    | '-' :: rest => (natural? rest).map fun n => -(n : Int)
    | '+' :: rest => (natural? rest).map fun n => (n : Int)
    | rest => (natural? rest).map fun n => (n : Int)

/-- Whether `n` fits into 64 bits, with a sign if it is negative. -/
def isNarrow (n : Int) : Bool :=
  -0x8000000000000000 ≤ n && n < 0x10000000000000000

/-- Whether `n` fits into 128 bits, with a sign if it is negative. -/
def isWide (n : Int) : Bool :=
  -0x80000000000000000000000000000000 ≤ n && n < 0x100000000000000000000000000000000

/-- A text without one plus sign in front; a second sign is refused. -/
def dropPlus? : List Char → Option (List Char)
  | '+' :: '+' :: _ => none
  | '+' :: '-' :: _ => none
  | '+' :: rest => some rest
  | rest => some rest

/-- The finite decimal that `text` spells. -/
def decimal? (text : List Char) : Option Binary64 :=
  ((dropPlus? text).bind Decimal.ofText?).bind fun d =>
    if d.toBinary64.isFinite then some d.toBinary64 else none

/-- The fractional number that `text` spells. -/
def float? (text : String) : Option Binary64 :=
  if text = ".inf" ∨ text = ".Inf" ∨ text = ".INF" ∨
      text = "+.inf" ∨ text = "+.Inf" ∨ text = "+.INF" then some (.infinite false)
  else if text = "-.inf" ∨ text = "-.Inf" ∨ text = "-.INF" then some (.infinite true)
  else if text = ".nan" ∨ text = ".NaN" ∨ text = ".NAN" then some .notANumber
  else decimal? text.toList

/-! ## Resolution -/

namespace Value

/-- A fractional number if `text` spells one, else the text itself. -/
def floatOrString (text : String) : Value :=
  if isZeroPadded text.toList then .string text
  else ((float? text).map Value.float).getD (.string text)

/-- The meaning of the plain scalar `text`. A whole number beyond 64 bits that fits into 128 is
refused. -/
def ofPlain? (text : String) : Option Value :=
  if text = "" ∨ isNull text then some .null
  else
    match boolean? text with
    | some b => some (.boolean b)
    | none =>
      match integer? text.toList with
      | some n =>
        if isNarrow n then some (.integer n)
        else if isWide n then none
        else some (floatOrString text)
      | none => some (floatOrString text)

/-- The meaning of the scalar `text` without a tag. -/
def ofUntagged? (text : String) (plain : Bool) : Option Value :=
  if plain then ofPlain? text else some (.string text)

/-- The whole number that `text` spells, where a tag asks for one. -/
def ofInteger? (text : String) : Option Value :=
  ((integer? text.toList).filter isNarrow).map .integer

/-- The meaning of the scalar `text` with its `tag`. A tag whose name is no text leaves no trace. -/
def ofScalar? (tag : Option Tag) (text : String) (plain : Bool) : Option Value :=
  match tag with
  | none => ofUntagged? text plain
  | some .boolean => (boolean? text).map .boolean
  | some .integer => ofInteger? text
  | some .float => (float? text).map .float
  | some .null => if isNull text then some .null else none
  | some .foreign => some (.string text)
  | some (.custom name) => (ofUntagged? text plain).map (.tagged name)
  | some .illegible => ofUntagged? text plain
  | some .nonspecific => (ofUntagged? text plain).map (.tagged "!")

end Value

end FirmwareBundle.Yaml
