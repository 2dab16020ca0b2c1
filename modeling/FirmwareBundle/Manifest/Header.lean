import FirmwareBundle.Json
import FirmwareBundle.Manifest.Basic
/-!
# Headers as text

A header is written as an object with its fields in a fixed order. Optional fields that are not
given are left out.

## Main definitions

* `FirmwareBundle.PartitionSpec.toJson`, `FirmwareBundle.Manifest.toJson`,
  `FirmwareBundle.ManifestDocument.toJson` — the objects.
* `FirmwareBundle.Manifest.headerText` — the header of a bundle on one line.
* `FirmwareBundle.Manifest.header` — the same in bytes.
-/

namespace FirmwareBundle

/-- The field `name`, written with `toJson`, or none if there is no value. -/
def optionalField {α : Type} (name : String) (toJson : α → Json) : Option α → List (String × Json)
  | none => []
  | some x => [(name, toJson x)]

/-- The entry `spec` of the table. What it does not say is left out. -/
def PartitionSpec.toJson (spec : PartitionSpec) : Json :=
  .object ([("name", .string spec.name), ("payloadSize", .number spec.payloadSize.toNat)] ++
    optionalField "sha1" Json.string spec.sha1 ++
    optionalField "partitionSize" (fun n => Json.number n.toNat) spec.partitionSize)

/-- The table of the entries `specs`. -/
def tableToJson (specs : List PartitionSpec) : Json :=
  .array (specs.map PartitionSpec.toJson)

/-- The fields of the boot parameters `boot`. -/
def BootParameters.fields (boot : BootParameters) : List (String × Json) :=
  [("kernelMem", .string boot.kernelMem), ("setTotalMem", .boolean boot.setTotalMem),
    ("mtdPrefix", .string boot.mtdPrefix), ("osmem", .string boot.osmem)]

namespace Manifest

/-- The object that a `manifest` is written as. Its table comes last. -/
def toJson (manifest : Manifest) : Json :=
  .object (manifest.fields ++
    optionalField "additionalCmdline" Json.string manifest.additionalCmdline ++
    optionalField "skip" (fun names => Json.array (names.map Json.string)) manifest.skip ++
    [("partitions", tableToJson manifest.partitions)])

/-- The header of a `manifest` on one line. -/
def headerText (manifest : Manifest) : String :=
  manifest.toJson.compact

/-- The header of a `manifest` in bytes. -/
def header (manifest : Manifest) : ByteArray :=
  manifest.headerText.toUTF8

end Manifest

/-- The object that the memory chip `rom` is written as. -/
def RomDescriptor.toJson (rom : RomDescriptor) : Json :=
  .object [("partitions", tableToJson rom.partitions)]

/-- The object that a device `descriptor` is written as. -/
def DeviceDescriptor.toJson (descriptor : DeviceDescriptor) : Json :=
  .object [("rom", .array (descriptor.rom.map RomDescriptor.toJson))]

/-- A header of either shape. -/
def ManifestDocument.toJson : ManifestDocument → Json
  | .bundle manifest => manifest.toJson
  | .device descriptor => descriptor.toJson

end FirmwareBundle
