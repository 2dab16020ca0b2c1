import FirmwareBundle.Bundle.Record
import FirmwareBundle.Bundle.Report
import FirmwareBundle.Error
import FirmwareBundle.Manifest.Decode
/-!
# Scanning a bundle

The records are read one after the other, each against its entry of the table. A valid payload is
handed to a sink; an invalid one is passed over. The next record always starts where the length of
this one says, so a wrong size in the header does not disturb the records behind it.

## Main definitions

* `FirmwareBundle.Sink` — a destination for valid payloads.
* `FirmwareBundle.Scan` — what happened during a scan, the sink after it, and its result.
* `FirmwareBundle.readManifest` — the header of a bundle and the offset of its first record.
* `FirmwareBundle.scanRecords` — the scan of the records behind a header.
* `FirmwareBundle.scan` — the scan of a bundle.

## Implementation notes

A scan that fails leaves its sink as the calls before the failure made it: a call that fails has no
effect of its own.
-/

namespace FirmwareBundle

/-! ## Sinks -/

/-- A destination for valid payloads with states `σ`: it takes one payload after the other, and is
told when the last record has been read. -/
structure Sink (σ : Type) where
  accept : σ → PartitionSpec → ByteArray → Except BundleError σ
  finish : σ → Except BundleError σ

/-- The sink that drops every payload. -/
def Sink.discard : Sink Unit where
  accept := fun _ _ _ => .ok ()
  finish := .ok

/-! ## Scans -/

/-- A step of a scan: the header was read, a complete record was found, its partition was found
invalid, a valid payload was handed to the sink, or the sink was told that there are no more. -/
inductive ScanEvent where
  | parsed (document : ManifestDocument)
  | found (name : String) (offset length : Nat)
  | rejected (outcome : Outcome)
  | offered (spec : PartitionSpec) (payload : ByteArray)
  | finished

/-- The steps of a scan, the state `sink` after them, and the `result`. -/
structure Scan (σ α : Type) where
  events : List ScanEvent
  sink : σ
  result : Except BundleError α

namespace Scan

variable {σ α β : Type}

/-- The scan `s` with the steps `events` before its own. -/
def after (events : List ScanEvent) (s : Scan σ α) : Scan σ α :=
  { s with events := events ++ s.events }

/-- The scan `s` with `f` applied to its result. -/
def map (f : α → β) (s : Scan σ α) : Scan σ β :=
  ⟨s.events, s.sink, s.result.map f⟩

end Scan

/-- The error for the entry `name` at an `index` of a table of `declared` entries, if there is no
complete record at `offset`. -/
def Record.Fault.toError (name : String) (index declared offset : Nat) :
    Record.Fault → BundleError
  | .absent => .broken (.missingRecords index declared)
  | .truncated length available => .broken (.truncatedRecord name offset length available)

variable {σ : Type}

/-- Tells the `sink` that there are no more records. Then all bytes must have been read, so `offset`
must be `data.size`. -/
def finishScan (sink : Sink σ) (data : ByteArray) (offset : Nat) (state : σ) :
    Scan σ (List Outcome) :=
  match sink.finish state with
  | .error e => ⟨[.finished], state, .error e⟩
  | .ok state =>
    ⟨[.finished], state,
      if offset = data.size then .ok [] else .error (.broken (.lengthMismatch offset data.size))⟩

/-- Reads one record for each entry from `offset` on. The first of these entries stands at `index`
in a table of `declared` entries. -/
def scanFrom (sink : Sink σ) (data : ByteArray) (declared : Nat) :
    List PartitionSpec → (index offset : Nat) → σ → Scan σ (List Outcome)
  | [], _, offset, state => finishScan sink data offset state
  | spec :: specs, index, offset, state =>
    match Record.read data offset with
    | .error fault => ⟨[], state, .error (fault.toError spec.name index declared offset)⟩
    | .ok payload =>
      let found := ScanEvent.found spec.name offset payload.size
      let next := offset + Bytes.lengthSize + payload.size
      let outcome := Outcome.classify spec payload
      if outcome.isOk then
        let offered := ScanEvent.offered spec payload
        match sink.accept state spec payload with
        | .error e => ⟨[found, offered], state, .error e⟩
        | .ok state =>
          ((scanFrom sink data declared specs (index + 1) next state).map (outcome :: ·)).after
            [found, offered]
      else
        ((scanFrom sink data declared specs (index + 1) next state).map (outcome :: ·)).after
          [found, .rejected outcome]

/-- Scans the records of the bundle `data` from `offset` on, one for each entry of the table of
`document`. -/
def scanRecords (sink : Sink σ) (data : ByteArray) (document : ManifestDocument) (offset : Nat)
    (state : σ) : Scan σ ScanReport :=
  (scanFrom sink data document.partitions.length document.partitions 0 offset state).map
    fun outcomes => ⟨document.shape, outcomes, data.size⟩

/-! ## Headers -/

/-- The header of the bundle `data`, which ends at the first zero byte, and the offset of the first
record. -/
def readManifest (data : ByteArray) : Except BundleError (ManifestDocument × Nat) :=
  match Bytes.firstZero data with
  | none => .error (.broken .missingTerminator)
  | some length =>
    match ManifestDocument.ofText (data.extract 0 length) with
    | .error fault => .error (.manifest fault)
    | .ok document => .ok (document, length + 1)

/-- Scans the bundle `data` with a `sink` in `state`. Without a header the sink is not used. -/
def scan (sink : Sink σ) (data : ByteArray) (state : σ) : Scan σ ScanReport :=
  match readManifest data with
  | .error e => ⟨[], state, .error e⟩
  | .ok (document, offset) =>
    (scanRecords sink data document offset state).after [.parsed document]

end FirmwareBundle
