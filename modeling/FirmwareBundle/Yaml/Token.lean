/-!
# Tokens of a YAML stream

The words and marks that the grammar of nodes is written in. The start and the end of a block
collection are tokens of their own, found from the indentation.

## Main definitions

* `FirmwareBundle.Yaml.Token` — the tokens.
-/

namespace FirmwareBundle.Yaml

/-- A token. A scalar remembers whether it was written without quotes or a block mark. -/
inductive Token where
  | versionDirective (major minor : Nat)
  | tagDirective (handle : String) (address : ByteArray)
  | documentStart
  | documentEnd
  | blockSequenceStart
  | blockMappingStart
  | blockEnd
  | flowSequenceStart
  | flowSequenceEnd
  | flowMappingStart
  | flowMappingEnd
  | blockEntry
  | flowEntry
  | key
  | value
  | alias (name : String)
  | anchor (name : String)
  | tag (handle : String) (suffix : ByteArray)
  | scalar (text : String) (plain : Bool)

end FirmwareBundle.Yaml
