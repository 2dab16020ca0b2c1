import FirmwareBundle.Text.Hex
/-!
# JSON text

Headers are written as JSON, on one line in a bundle and indented for a reader.

## Main definitions

* `FirmwareBundle.Json` — the values that headers are made of.
* `FirmwareBundle.Json.write` — the text of a value in one of two layouts.
* `FirmwareBundle.Json.compact` — the text on one line without blanks.
* `FirmwareBundle.Json.pretty` — the text with one item a line, indented by two spaces.
-/

namespace FirmwareBundle

/-- A value. The fields of an object keep their order. -/
inductive Json where
  | boolean (value : Bool)
  | number (value : Nat)
  | string (text : String)
  | array (items : List Json)
  | object (fields : List (String × Json))

namespace Json

/-! ## Texts -/

/-- The character `c` inside quotes. Quotes, backslashes and control characters are escaped. -/
def writeChar (c : Char) : List Char :=
  if c = '"' then ['\\', '"']
  else if c = '\\' then ['\\', '\\']
  else if c = '\x08' then ['\\', 'b']
  else if c = '\x0c' then ['\\', 'f']
  else if c = '\n' then ['\\', 'n']
  else if c = '\r' then ['\\', 'r']
  else if c = '\t' then ['\\', 't']
  else if c < ' ' then ['\\', 'u', '0', '0'] ++ Hex.ofByte c.toNat.toUInt8
  else [c]

/-- The text `s` between quotes. -/
def writeString (s : String) : List Char :=
  '"' :: s.toList.flatMap writeChar ++ ['"']

/-! ## Layouts -/

/-- How the parts of arrays and objects are set apart. -/
inductive Layout where
  | compact
  | indented
  deriving DecidableEq

/-- What stands before an item or a closing bracket at some `depth`. -/
def Layout.lineBreak : Layout → (depth : Nat) → List Char
  | .compact, _ => []
  | .indented, depth => '\n' :: List.replicate (2 * depth) ' '

/-- What stands between a key and its value. -/
def Layout.colon : Layout → List Char
  | .compact => [':']
  | .indented => [':', ' ']

mutual

/-- The text of a value that stands at some `depth`. Empty collections take no line of their own. -/
def write (layout : Layout) (depth : Nat) : Json → List Char
  | .boolean true => "true".toList
  | .boolean false => "false".toList
  | .number n => Nat.toDigits 10 n
  | .string s => writeString s
  | .array [] => ['[', ']']
  | .array (item :: items) =>
    '[' :: layout.lineBreak (depth + 1) ++ write layout (depth + 1) item ++
      writeItems layout (depth + 1) items ++ layout.lineBreak depth ++ [']']
  | .object [] => ['{', '}']
  | .object ((key, value) :: fields) =>
    '{' :: layout.lineBreak (depth + 1) ++ writeString key ++ layout.colon ++
      write layout (depth + 1) value ++ writeFields layout (depth + 1) fields ++
      layout.lineBreak depth ++ ['}']

/-- The items after the first, each behind a comma. -/
def writeItems (layout : Layout) (depth : Nat) : List Json → List Char
  | [] => []
  | item :: items =>
    ',' :: layout.lineBreak depth ++ write layout depth item ++ writeItems layout depth items

/-- The fields after the first, each behind a comma. -/
def writeFields (layout : Layout) (depth : Nat) : List (String × Json) → List Char
  | [] => []
  | (key, value) :: fields =>
    ',' :: layout.lineBreak depth ++ writeString key ++ layout.colon ++
      write layout depth value ++ writeFields layout depth fields

end

/-- The text of `value` on one line, without blanks. -/
def compact (value : Json) : String :=
  String.ofList (write .compact 0 value)

/-- The text of `value` with one item a line, indented by two spaces for each depth. -/
def pretty (value : Json) : String :=
  String.ofList (write .indented 0 value)

end Json

end FirmwareBundle
