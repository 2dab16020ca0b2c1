import FirmwareBundle.Bundle.Destination
import FirmwareBundle.Bundle.Saving
import FirmwareBundle.CommandLine.Invocation
/-!
# What is told during a command

## Main definitions

* `FirmwareBundle.LogRecord` — a line with its level.
* `FirmwareBundle.scanLog` — the lines of a scan.
* `FirmwareBundle.writingLog` — the lines of the writing of a bundle.
* `FirmwareBundle.LogRecord.shown` — the lines that a level lets through.
-/

namespace FirmwareBundle

open CommandLine

/-- A line with its level. -/
structure LogRecord where
  level : LogLevel
  text : String
  deriving DecidableEq

namespace LogRecord

/-- The line `r` with the name of its level in front. -/
def line (r : LogRecord) : String :=
  r.level.name ++ " " ++ r.text

/-- The lines of those `records` that a `level` lets through. -/
def shown (level : LogLevel) (records : List LogRecord) : List String :=
  (records.filter (·.level.rank ≤ level.rank)).map line

end LogRecord

/-! ## Scans -/

/-- The name of a shape. -/
def ManifestShape.text : ManifestShape → String
  | .bundle => "Bundle"
  | .deviceDescriptor => "DeviceDescriptor"

/-- The name of a mode with its place. -/
def ScanMode.text : ScanMode → String
  | .summary => "Summary"
  | .extract dir => "Extract \x7b dir: " ++ quoted dir ++ " \x7d"
  | .concatenate path => "Concatenate \x7b path: " ++ quoted path ++ " \x7d"

/-- The warning on a partition that is not valid. -/
def Outcome.warning : Outcome → String
  | .ok .. => ""
  | .sizeMismatch name expected actual =>
    "For '" ++ name ++ "' expected size " ++ Hex.prefixed expected ++ ", actual " ++
      Hex.prefixed actual ++ ", skipping"
  | .digestMismatch name expected actual =>
    "SHA1 digest of '" ++ name ++ "' is " ++ actual ++ ", expected " ++ expected ++ ", skipping"

/-- What is told when the valid payload of the partition `name` is handed on. A refused name is not
told. -/
def offerLog (mode : ScanMode) (name : String) (size : Nat) : List LogRecord :=
  match mode with
  | .summary => [⟨.debug, "Validated " ++ name ++ " (" ++ toString size ++ " bytes)"⟩]
  | .extract dir =>
    if Path.isPlainName name then [⟨.debug, "Writing " ++ name ++ " to " ++ Path.join dir name⟩]
    else []
  | .concatenate path => [⟨.debug, "Appending " ++ name ++ " to " ++ path⟩]

/-- What is told when there are no more payloads, and `bytes` have been handed on. -/
def finishLog (mode : ScanMode) (bytes : Nat) : List LogRecord :=
  match mode with
  | .concatenate path => [⟨.info, "Wrote " ++ toString bytes ++ " bytes to " ++ path⟩]
  | _ => []

/-- The lines of a scan in a `mode`, if `bytes` were handed on before. -/
def scanLog (mode : ScanMode) : (bytes : Nat) → List ScanEvent → List LogRecord
  | _, [] => []
  | bytes, .parsed document :: events =>
    ⟨.debug, "Parsed " ++ document.shape.text ++ " manifest with " ++
      toString document.partitions.length ++ " partitions"⟩ :: scanLog mode bytes events
  | bytes, .found name offset length :: events =>
    ⟨.trace, "Record '" ++ name ++ "' at " ++ Hex.prefixed offset ++ ", " ++ Hex.prefixed length ++
      " bytes"⟩ :: scanLog mode bytes events
  | bytes, .rejected outcome :: events =>
    ⟨.warn, outcome.warning⟩ :: scanLog mode bytes events
  | bytes, .offered spec payload :: events =>
    offerLog mode spec.name payload.size ++ scanLog mode (bytes + payload.size) events
  | bytes, .finished :: events => finishLog mode bytes ++ scanLog mode bytes events

/-! ## Writing -/

/-- What is told about an `image` that was read. -/
def loadedLog (image : LoadedImage) : LogRecord :=
  ⟨.debug, "Read " ++ image.kind.name ++ " image " ++ image.path ++ " (" ++
    toString image.data.size ++ " bytes)"⟩

/-- What is told about an entry `spec` that was packed. -/
def packedLog (spec : PartitionSpec) : LogRecord :=
  ⟨.info, "Packing " ++ spec.name ++ " " ++ Hex.prefixed spec.payloadSize.toNat ++ " bytes sha1 " ++
    spec.sha1.getD ""⟩

/-- The lines of the writing `w` of a bundle to the path `output`. -/
def writingLog (output : String) (w : Writing) : List LogRecord :=
  w.loaded.map loadedLog ++ w.packed.map packedLog ++
    match w.result with
    | .ok _ => [⟨.info, "Wrote bundle " ++ output⟩]
    | .error _ => []

end FirmwareBundle
