import FirmwareBundle.Bundle.Mode
import FirmwareBundle.Bundle.Scan
import FirmwareBundle.Files.System
/-!
# Where valid payloads go

## Main definitions

* `FirmwareBundle.Sink.extract` — a file of its own for each payload, named after its partition.
* `FirmwareBundle.Sink.concatenate` — one file for all payloads, one after the other.
* `FirmwareBundle.scanInto` — the scan of a bundle in one of the three modes.
* `FirmwareBundle.scanFile` — the same for a bundle in a file.
-/

namespace FirmwareBundle

/-! ## One file for each payload -/

/-- The `files`, and the paths `written` so far. -/
structure Extraction where
  files : FileSystem
  written : List String := []

/-- Writes a `payload` to the file of the directory `dir` that is named after its entry `spec`. A
name that could lead out of `dir` is refused. -/
def Extraction.accept (dir : String) (s : Extraction) (spec : PartitionSpec)
    (payload : ByteArray) : Except BundleError Extraction :=
  let path := Path.join dir spec.name
  if Path.isPlainName spec.name then
    match s.files.write path payload with
    | .ok files => .ok ⟨files, s.written ++ [path]⟩
    | .error cause => .error (.write path cause)
  else .error (.write path .notPlainName)

/-- The sink that writes each payload to a file of its own in the directory `dir`. -/
def Sink.extract (dir : String) : Sink Extraction where
  accept := Extraction.accept dir
  finish := .ok

/-! ## One file for all payloads -/

/-- The `files`, the `place` of the one that is written, and the number of bytes written to it. -/
structure Aggregate where
  files : FileSystem
  place : Location
  bytesWritten : Nat := 0

/-- Makes the file for all payloads at `path`, or empties it. -/
def Aggregate.create (files : FileSystem) (path : String) : Except BundleError Aggregate :=
  match files.create path with
  | .ok (place, files) => .ok ⟨files, place, 0⟩
  | .error cause => .error (.write path cause)

/-- Writes a `payload` behind those that `s` has already. -/
def Aggregate.accept (s : Aggregate) (payload : ByteArray) : Aggregate :=
  { s with
    files := s.files.append s.place payload
    bytesWritten := s.bytesWritten + payload.size }

/-- The sink that writes all payloads to one file. -/
def Sink.concatenate : Sink Aggregate where
  accept := fun s _ payload => .ok (s.accept payload)
  finish := .ok

/-! ## Scans in each mode -/

/-- The scan `s` with `f` applied to its sink. -/
def Scan.mapSink {σ τ α : Type} (f : σ → τ) (s : Scan σ α) : Scan τ α :=
  ⟨s.events, f s.sink, s.result⟩

/-- Scans the bundle `data` in one of the modes. The file for all payloads is made only once there
is a header. -/
def scanInto (files : FileSystem) (data : ByteArray) : ScanMode → Scan FileSystem ScanReport
  | .summary => (scan Sink.discard data ()).mapSink fun _ => files
  | .extract dir => (scan (Sink.extract dir) data ⟨files, []⟩).mapSink (·.files)
  | .concatenate path =>
    match readManifest data with
    | .error e => ⟨[], files, .error e⟩
    | .ok (document, offset) =>
      match Aggregate.create files path with
      | .error e => ⟨[.parsed document], files, .error e⟩
      | .ok aggregate =>
        ((scanRecords Sink.concatenate data document offset aggregate).mapSink (·.files)).after
          [.parsed document]

/-- Reads the input file at `path`. -/
def readInput (files : FileSystem) (path : String) : Except BundleError ByteArray :=
  (files.read path).mapError (.missingInput path)

/-- Scans the bundle in the file at `path` in a `mode`. -/
def scanFile (files : FileSystem) (path : String) (mode : ScanMode) : Scan FileSystem ScanReport :=
  match readInput files path with
  | .error e => ⟨[], files, .error e⟩
  | .ok data => scanInto files data mode

end FirmwareBundle
