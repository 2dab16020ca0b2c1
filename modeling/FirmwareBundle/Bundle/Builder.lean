import FirmwareBundle.Bundle.Record
import FirmwareBundle.Config.Settings
import FirmwareBundle.Digest.Short
import FirmwareBundle.Error
import FirmwareBundle.Manifest.Header
import FirmwareBundle.Partition.Kind
/-!
# Building a bundle

A bundle is the header of a manifest, a zero byte, and the record of each payload. The manifest
describes the payloads in the order of flash memory, in whatever order they were given.

## Main definitions

* `FirmwareBundle.additionalCmdline` — what is added to the kernel's command line.
* `FirmwareBundle.Builder` — the settings and payloads of a bundle to be built.
* `FirmwareBundle.Builder.ofSteps` — a builder that is set up step by step.
* `FirmwareBundle.Builder.build` — the bundle, if every payload fits.
* `FirmwareBundle.Bundle` — a manifest with its payloads.
* `FirmwareBundle.Bundle.toBytes` — the bundle in bytes.
-/

namespace FirmwareBundle

/-! ## Settings -/

/-- How payloads are laid out: each within the slot of its kind, or without regard to slots. -/
inductive Packing where
  | fixedSlot
  | tight
  deriving DecidableEq

/-- What is added to the kernel's command line: the first program if `init` is set, the parameters
`cma` for its memory if there are any, both, or nothing. -/
def additionalCmdline (init : Bool) (cma : String) : Option String :=
  if init then some (if cma = "" then "init=/init" else "init=/init " ++ cma)
  else if cma = "" then none else some cma

/-- The settings and payloads of a bundle to be built. -/
structure Builder where
  parameters : BootParameters := .standard
  packing : Packing := .fixedSlot
  init : Bool := false
  cma : String := ""
  payloads : Slots ByteArray := {}

/-- A step of setting up a builder: how payloads are laid out, what is added to the kernel's command
line, or the payload of a `kind`. -/
inductive BuilderStep where
  | packing (packing : Packing)
  | init (init : Bool)
  | cma (cma : String)
  | payload (kind : PartitionKind) (data : ByteArray)

namespace Builder

/-- The builder `b` after a step. What was set before is replaced. -/
def step (b : Builder) : BuilderStep → Builder
  | .packing packing => { b with packing }
  | .init init => { b with init }
  | .cma cma => { b with cma }
  | .payload kind data => { b with payloads := b.payloads.put kind data }

/-- The builder that `steps` set up, one after the other, from the standard settings with
`parameters`. -/
def ofSteps (parameters : BootParameters) (steps : List BuilderStep) : Builder :=
  steps.foldl step { parameters }

end Builder

/-! ## Bundles -/

/-- A manifest with the payloads of its partitions. -/
structure Bundle where
  manifest : Manifest
  payloads : List ByteArray

/-- The size that no payload of a `kind` may exceed: that of its length word, and with `fixedSlot`
also that of its slot. -/
def Packing.capacity : Packing → PartitionKind → Nat
  | .fixedSlot, kind => min Bytes.maxLength kind.capacity
  | .tight, _ => Bytes.maxLength

/-- The bound that an oversize payload of `size` bytes is told to exceed. That of the length word
comes before that of the slot. -/
def Packing.exceeded (packing : Packing) (kind : PartitionKind) (size : Nat) : Nat :=
  if Bytes.maxLength < size then Bytes.maxLength else packing.capacity kind

/-- The size of the slot of a `kind` as its entry records it. With `tight` there are no slots. -/
def Packing.slotSize : Packing → PartitionKind → Option UInt64
  | .fixedSlot, kind => some kind.capacity.toUInt64
  | .tight, _ => none

/-- The entry of a `payload` of a `kind`, if it is within `packing.capacity kind`. -/
def packOne (packing : Packing) (kind : PartitionKind) (payload : ByteArray) :
    Except BundleError PartitionSpec :=
  if packing.capacity kind < payload.size then
    .error (.oversize kind.name payload.size (packing.exceeded kind payload.size))
  else
    .ok ⟨kind.name, payload.size.toUInt64, some (shortDigest payload), packing.slotSize kind⟩

/-- The entries of payloads up to the first that does not fit, and the error of that one. The
payloads behind it are not looked at. -/
def packAll (packing : Packing) :
    List (PartitionKind × ByteArray) → List PartitionSpec × Option BundleError
  | [] => ([], none)
  | (kind, payload) :: rest =>
    match packOne packing kind payload with
    | .error e => ([], some e)
    | .ok spec =>
      let (specs, e) := packAll packing rest
      (spec :: specs, e)

/-- The partitions that a device does not look for where there is no boot loader in the bundle. -/
def skippedWithoutBoot : List String := ["boot", "env"]

namespace Builder

/-- The manifest of `b` with the table `specs`. A device is told to skip the parts in
`skippedWithoutBoot` if no entry is that of a boot loader. -/
def manifest (b : Builder) (specs : List PartitionSpec) : Manifest :=
  { b.parameters with
    additionalCmdline := additionalCmdline b.init b.cma
    skip :=
      if specs.all (·.name ≠ PartitionKind.boot.name) then some skippedWithoutBoot else none
    partitions := specs }

/-- The entries that were packed, and the bundle of `b` unless a payload does not fit. -/
def run (b : Builder) : List PartitionSpec × Except BundleError Bundle :=
  let images := b.payloads.toList
  match packAll b.packing images with
  | (specs, some e) => (specs, .error e)
  | (specs, none) => (specs, .ok ⟨b.manifest specs, images.map (·.2)⟩)

/-- The bundle of `b`, if every payload fits. -/
def build (b : Builder) : Except BundleError Bundle :=
  b.run.2

end Builder

namespace Bundle

/-- The parts of a bundle in the order in which they are written: the header, a zero byte, and each
payload behind its length. -/
def parts (b : Bundle) : List ByteArray :=
  b.manifest.header :: ⟨#[0]⟩ ::
    b.payloads.flatMap fun payload => [Bytes.ofLength payload.size, payload]

/-- The bytes of a bundle: its `parts`, one after the other. -/
def toBytes (b : Bundle) : ByteArray :=
  b.parts.foldl (· ++ ·) .empty

end Bundle

end FirmwareBundle
