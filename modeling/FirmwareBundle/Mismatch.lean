import FirmwareBundle.Number.Binary64
import FirmwareBundle.Text.Quoted
/-!
# Values of the wrong type

Headers and settings are read into fields of fixed types. Where a value does not fit, the message
says what was found and what was expected.

## Main definitions

* `FirmwareBundle.Found` — what stood in the place.
* `FirmwareBundle.Expected` — what the place is for.
* `FirmwareBundle.Mismatch` — the two together, with the message.
-/

namespace FirmwareBundle

/-- What was found: the value of a scalar, or the form of a collection. -/
inductive Found where
  | nothing
  | boolean (value : Bool)
  | integer (value : Int)
  | float (value : Binary64)
  | string (text : String)
  | sequence
  | mapping

/-- What was expected: a type, the name of a field, or a record with a name of its own. -/
inductive Expected where
  | string
  | boolean
  | unsigned
  | sequence
  | fieldName
  | record (name : String)
  deriving DecidableEq

namespace Found

/-- How a value is told. -/
def text : Found → String
  | .nothing => "unit value"
  | .boolean value => "boolean `" ++ (if value then "true" else "false") ++ "`"
  | .integer value => "integer `" ++ toString value ++ "`"
  | .float value => "floating point `" ++ value.text ++ "`"
  | .string text => "string " ++ quoted text
  | .sequence => "sequence"
  | .mapping => "map"

end Found

namespace Expected

/-- How an expectation is told. -/
def text : Expected → String
  | .string => "a string"
  | .boolean => "a boolean"
  | .unsigned => "u64"
  | .sequence => "a sequence"
  | .fieldName => "field identifier"
  | .record name => "struct " ++ name

end Expected

/-- A value that does not fit: what was `found`, and what was `expected`. -/
structure Mismatch where
  found : Found
  expected : Expected

namespace Mismatch

/-- What was found and what was expected. -/
def text (m : Mismatch) : String :=
  m.found.text ++ ", expected " ++ m.expected.text

/-- The message on a value of another type. -/
def ofType (m : Mismatch) : String :=
  "invalid type: " ++ m.text

/-- The message on a value of the right type and outside its range. -/
def ofRange (m : Mismatch) : String :=
  "invalid value: " ++ m.text

end Mismatch

end FirmwareBundle
