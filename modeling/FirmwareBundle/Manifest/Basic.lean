import FirmwareBundle.Partition.Spec
/-!
# Manifests

The header of a bundle is a manifest, which holds the table of partitions beside the parameters
that the device boots with. Dumps of flash memory carry a device descriptor instead, with one table
for each memory chip; only the first one is used.

## Main definitions

* `FirmwareBundle.BootParameters` — the parameters that every manifest carries.
* `FirmwareBundle.Manifest` — a manifest.
* `FirmwareBundle.DeviceDescriptor` — a device descriptor.
* `FirmwareBundle.ManifestDocument` — a header of either shape, with its table.
-/

namespace FirmwareBundle

/-- The parameters of booting: a token for the memory of the kernel, whether to set it, a prefix for
the names of memory devices, and the memory kept for the system. -/
structure BootParameters where
  kernelMem : String
  setTotalMem : Bool
  mtdPrefix : String
  osmem : String
  deriving DecidableEq

/-- The token that a device replaces with the size of its memory. -/
def totalMemoryToken : String := "$\x7btotalmem\x7d"

/-- The parameters of a manifest that names none. -/
def BootParameters.unstated : BootParameters :=
  ⟨totalMemoryToken, true, "", ""⟩

/-- A manifest: boot parameters, perhaps more of the kernel's command line, perhaps partitions to be
skipped, and the table `partitions` in the order of the records. -/
structure Manifest extends BootParameters where
  additionalCmdline : Option String := none
  skip : Option (List String) := none
  partitions : List PartitionSpec := []
  deriving DecidableEq

/-- One memory chip of a device. -/
structure RomDescriptor where
  partitions : List PartitionSpec
  deriving DecidableEq

/-- The memory chips of a device. -/
structure DeviceDescriptor where
  rom : List RomDescriptor
  deriving DecidableEq

/-- The two shapes of a header. -/
inductive ManifestShape where
  | bundle
  | deviceDescriptor
  deriving DecidableEq

/-- A header of either shape. -/
inductive ManifestDocument where
  | bundle (manifest : Manifest)
  | device (descriptor : DeviceDescriptor)
  deriving DecidableEq

namespace ManifestDocument

/-- The shape of a header. -/
def shape : ManifestDocument → ManifestShape
  | .bundle _ => .bundle
  | .device _ => .deviceDescriptor

/-- The table of partitions: that of the manifest, or that of the first memory chip. -/
def partitions : ManifestDocument → List PartitionSpec
  | .bundle manifest => manifest.partitions
  | .device descriptor => (descriptor.rom.head?.map (·.partitions)).getD []

end ManifestDocument

/-- The first name of a table that an earlier entry has, or that is among the names `before` it. -/
def firstRepeated (before : List String) : List PartitionSpec → Option String
  | [] => none
  | spec :: specs =>
    if spec.name ∈ before then some spec.name else firstRepeated (spec.name :: before) specs

end FirmwareBundle
