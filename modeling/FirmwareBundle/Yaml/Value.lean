import FirmwareBundle.Number.Binary64
/-!
# Values of a YAML document

What a document means once its scalars are resolved and its aliases are replaced by the nodes that
they stand for.

## Main definitions

* `FirmwareBundle.Yaml.Value` — the values.
* `FirmwareBundle.Yaml.Value.same` — equality of keys: mappings without regard to the order of their
  entries, numbers by their value.
* `FirmwareBundle.Yaml.Value.untagged` — a value without the tags around it.
* `FirmwareBundle.Yaml.Value.get?` — the value of a text key of a mapping.
-/

namespace FirmwareBundle.Yaml

/-- A value. A tag of the writer's own stays around the value it was put on. -/
inductive Value where
  | null
  | boolean (value : Bool)
  | integer (value : Int)
  | float (value : Binary64)
  | string (text : String)
  | sequence (items : List Value)
  | mapping (entries : List (Value × Value))
  | tagged (name : String) (value : Value)
  deriving Inhabited

namespace Value

mutual

/-- Whether two values are one key. Whole numbers and fractional numbers are never the same. -/
def same : Value → Value → Bool
  | .null, .null => true
  | .boolean a, .boolean b => a == b
  | .integer a, .integer b => a == b
  | .float a, .float b => a.same b
  | .string a, .string b => a == b
  | .sequence xs, .sequence ys => sameItems xs ys
  | .mapping xs, .mapping ys => xs.length == ys.length && sameEntries xs ys
  | .tagged a x, .tagged b y => a == b && same x y
  | _, _ => false

/-- Whether two lists hold the same values in the same order. -/
def sameItems : List Value → List Value → Bool
  | [], [] => true
  | x :: xs, y :: ys => same x y && sameItems xs ys
  | _, _ => false

/-- Whether every entry of the first list stands somewhere in the second. -/
def sameEntries : List (Value × Value) → List (Value × Value) → Bool
  | [], _ => true
  | (key, value) :: xs, ys =>
    ys.any (fun entry => same key entry.1 && same value entry.2) && sameEntries xs ys

end

/-- The value without the tags around it. -/
def untagged : Value → Value
  | .tagged _ value => untagged value
  | value => value

/-- Whether a value is the text `text`, with no tag around it. -/
def isString (text : String) : Value → Bool
  | .string s => s == text
  | _ => false

/-- What `value` has for the text `key`; only mappings have anything. -/
def get? (value : Value) (key : String) : Option Value :=
  match value.untagged with
  | .mapping entries => (entries.find? (·.1.isString key)).map (·.2)
  | _ => none

end Value

end FirmwareBundle.Yaml
