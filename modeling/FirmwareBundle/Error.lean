import FirmwareBundle.Config.Fault
import FirmwareBundle.Manifest.Fault
/-!
# Errors

Why an operation on a bundle fails as a whole.

## Main definitions

* `FirmwareBundle.BrokenDump` — records that do not fit the table.
* `FirmwareBundle.BundleError` — all errors.
* `FirmwareBundle.BundleError.text` — what is told to the user.
* `FirmwareBundle.BundleError.source?` — the fault of a file operation below an error.

## Implementation notes

A header or settings that are not well formed have no wording of their own, so `text` takes the
words to use for them.
-/

namespace FirmwareBundle

/-! ## Broken dumps -/

/-- Why the records of a bundle do not fit its header. -/
inductive BrokenDump where
  /-- No zero byte ends the header. -/
  | missingTerminator
  /-- A record claims more bytes than there are. -/
  | truncatedRecord (name : String) (offset length available : Nat)
  /-- There are fewer records than the table has entries. -/
  | missingRecords (consumed declared : Nat)
  /-- Bytes are left behind the last record. -/
  | lengthMismatch (cursor total : Nat)
  deriving DecidableEq

/-- The wording of a broken dump. -/
def BrokenDump.text : BrokenDump → String
  | .missingTerminator => "manifest header is not NUL-terminated"
  | .truncatedRecord name offset length available =>
    "record '" ++ name ++ "' at offset " ++ Hex.prefixed offset ++ " declares " ++
      Hex.prefixed length ++ " bytes but only " ++ Hex.prefixed available ++ " remain"
  | .missingRecords consumed declared =>
    "stream ended after " ++ toString consumed ++ " of " ++ toString declared ++
      " declared partitions"
  | .lengthMismatch cursor total =>
    "scan ended at offset " ++ Hex.prefixed cursor ++ " but stream is " ++ Hex.prefixed total ++
      " bytes long"

/-! ## Errors -/

/-- Why an operation fails. -/
inductive BundleError where
  /-- The header is no manifest. -/
  | manifest (fault : ManifestFault)
  /-- The records do not fit the header. -/
  | broken (reason : BrokenDump)
  /-- A payload is larger than its slot. -/
  | oversize (name : String) (size capacity : Nat)
  /-- An input cannot be read. -/
  | missingInput (path : String) (cause : IoFault)
  /-- An output cannot be written. -/
  | write (path : String) (cause : IoFault)
  /-- The settings cannot be used. -/
  | config (fault : ConfigFault)
  /-- Some other file operation fails. -/
  | io (cause : IoFault)
  /-- A header cannot be written as text. -/
  | serialization (text : String)

namespace BundleError

/-- Whether the records of the bundle are at fault. -/
def isBrokenDump : BundleError → Bool
  | .broken _ => true
  | _ => false

/-- What is told to the user. For a text that is not well formed the words are `malformed`. -/
def text (malformed : String) : BundleError → String
  | .manifest fault => "Manifest parse error: " ++ fault.text?.getD malformed
  | .broken reason => "Broken dump: " ++ reason.text
  | .oversize name size capacity =>
    "Partition '" ++ name ++ "' is " ++ Hex.prefixed size ++ " bytes, exceeding its " ++
      Hex.prefixed capacity ++ " byte slot"
  | .missingInput path cause => "Cannot read input '" ++ path ++ "': " ++ cause.text
  | .write path cause => "Cannot write '" ++ path ++ "': " ++ cause.text
  | .config fault => "Configuration error: " ++ fault.text?.getD malformed
  | .io cause => "I/O error: " ++ cause.text
  | .serialization text => "Serialization error: " ++ text

/-- The fault of a file operation that an error reports, if it reports one. -/
def source? : BundleError → Option IoFault
  | .missingInput _ cause => some cause
  | .write _ cause => some cause
  | .io cause => some cause
  | _ => none

/-- The wordings of the error `e` and of the fault below it, the widest first. -/
def chain (malformed : String) (e : BundleError) : List String :=
  e.text malformed :: (e.source?.map IoFault.text).toList

end BundleError

end FirmwareBundle
