import FirmwareBundle.Digest.Short
import FirmwareBundle.Manifest.Basic
/-!
# Reports on the partitions of a bundle

Every record is held against its entry of the table: first its length, then its digest.

## Main definitions

* `FirmwareBundle.Outcome` — what was found for one partition.
* `FirmwareBundle.Outcome.classify` — the outcome for an entry and its payload.
* `FirmwareBundle.ScanReport` — the outcomes for all partitions, in the order of the table.
-/

namespace FirmwareBundle

/-! ## Outcomes -/

/-- What was found for one partition. Sizes are in bytes. -/
inductive Outcome where
  | ok (name : String) (size : Nat) (sha1 : String)
  | sizeMismatch (name : String) (expected actual : Nat)
  | digestMismatch (name expected actual : String)
  deriving DecidableEq

namespace Outcome

/-- The outcome for a `payload` with the entry `spec`: its size must be `spec.payloadSize`, and then
its digest must be `spec.expectedDigest`, if there is any. The digest is not looked at if the size
is wrong. -/
def classify (spec : PartitionSpec) (payload : ByteArray) : Outcome :=
  if payload.size ≠ spec.payloadSize.toNat then
    .sizeMismatch spec.name spec.payloadSize.toNat payload.size
  else
    let digest := shortDigest payload
    match spec.expectedDigest with
    | none => .ok spec.name payload.size digest
    | some expected =>
      if expected = digest then .ok spec.name payload.size digest
      else .digestMismatch spec.name expected digest

/-- The name of the partition. -/
def name : Outcome → String
  | .ok name .. | .sizeMismatch name .. | .digestMismatch name .. => name

/-- Whether the partition is valid. -/
def isOk : Outcome → Bool
  | .ok .. => true
  | _ => false

/-- The sign that a valid or an invalid partition is shown with. -/
def symbol (o : Outcome) : String :=
  if o.isOk then "✅" else "❌"

end Outcome

/-! ## Reports -/

/-- The result of reading a whole bundle of `totalBytes` bytes: the `shape` of its header, and the
`outcomes` in the order of the table. -/
structure ScanReport where
  shape : ManifestShape
  outcomes : List Outcome
  totalBytes : Nat
  deriving DecidableEq

namespace ScanReport

/-- Whether every partition of a `report` is valid. -/
def isClean (report : ScanReport) : Bool :=
  report.outcomes.all Outcome.isOk

/-- The outcomes of those partitions of a `report` that are not valid. -/
def warnings (report : ScanReport) : List Outcome :=
  report.outcomes.filter (!·.isOk)

/-- The number of valid partitions of a `report`. -/
def validCount (report : ScanReport) : Nat :=
  report.outcomes.countP Outcome.isOk

end ScanReport

end FirmwareBundle
