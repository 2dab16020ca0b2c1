import FirmwareBundle.Files.Fault
import FirmwareBundle.Toml.Diagnostic
/-!
# Why settings are refused

## Main definitions

* `FirmwareBundle.ConfigFault` — the causes.
* `FirmwareBundle.ConfigFault.text?` — their wording.
-/

namespace FirmwareBundle

/-- Why settings cannot be used. -/
inductive ConfigFault where
  /-- The text is not well formed. -/
  | malformed
  /-- The file cannot be read. -/
  | unreadable (path : String) (cause : IoFault)
  /-- A value is of the wrong type. -/
  | mismatch (diagnostic : Toml.Diagnostic)
  /-- A fault that comes with its own wording. -/
  | described (text : String)

/-- The wording of a fault. A malformed text has none, since its wording depends on the reader. -/
def ConfigFault.text? : ConfigFault → Option String
  | .malformed => none
  | .unreadable path cause => some ("cannot read '" ++ path ++ "': " ++ cause.text)
  | .mismatch diagnostic => some diagnostic.text
  | .described text => some text

end FirmwareBundle
