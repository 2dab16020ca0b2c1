/-!
# Entries of a partition table

## Main definitions

* `FirmwareBundle.PartitionSpec` — what a header says about one partition.
* `FirmwareBundle.PartitionSpec.expectedDigest` — the digest that its payload must have, if any.
-/

namespace FirmwareBundle

/-- An entry of the table: its name, the length of the payload, perhaps its short digest, and
perhaps the size of the slot that it was packed for. -/
structure PartitionSpec where
  name : String
  payloadSize : UInt64
  sha1 : Option String := none
  partitionSize : Option UInt64 := none
  deriving DecidableEq

/-- The digest that `spec` asks for. An empty one asks for nothing. -/
def PartitionSpec.expectedDigest (spec : PartitionSpec) : Option String :=
  spec.sha1.filter (· ≠ "")

end FirmwareBundle
