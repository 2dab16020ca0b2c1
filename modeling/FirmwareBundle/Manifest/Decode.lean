import FirmwareBundle.Manifest.Basic
import FirmwareBundle.Manifest.Fault
import FirmwareBundle.Yaml.Document
/-!
# From values to manifests

The entries of a mapping are read in the order of the text, each into the field that it names, and
the first fault decides. Fields that must be given are asked for once all entries are read. Entries
that name no field are passed over. Tags around a value are ignored, and where a collection is
expected, null is an empty one.

## Main definitions

* `FirmwareBundle.Decode.record` — reads the entries of a mapping into a draft.
* `FirmwareBundle.Decode.spec`, `FirmwareBundle.Decode.manifest`,
  `FirmwareBundle.Decode.deviceDescriptor` — the records of a header.
* `FirmwareBundle.ManifestDocument.ofValue` — a header of the shape that its keys show.
* `FirmwareBundle.ManifestDocument.ofText` — the same from text, with distinct names in its table.
-/

namespace FirmwareBundle

namespace Decode

open Yaml

/-- A value read into a field, or the fault that refuses it. -/
abbrev Decoded (α : Type) := Except ManifestFault α

/-! ## Scalars -/

/-- What is told to be found where `value` stands. Tags around it are not told. -/
def found (value : Value) : Found :=
  match value.untagged with
  | .null => .nothing
  | .boolean b => .boolean b
  | .integer n => .integer n
  | .float x => .float x
  | .string s => .string s
  | .sequence _ => .sequence
  | .mapping _ => .mapping
  | .tagged .. => .nothing

/-- Refuses `value`, since `expected` stands for another type. -/
def refuse {α : Type} (expected : Expected) (value : Value) : Decoded α :=
  .error (.mismatch ⟨found value, expected⟩)

/-- The text `value`. If it is none, what is told to be expected is `expected`. -/
def textAs (expected : Expected) (value : Value) : Decoded String :=
  match value.untagged with
  | .string s => .ok s
  | _ => refuse expected value

/-- A text. -/
def text : Value → Decoded String :=
  textAs .string

/-- A truth value. -/
def boolean (value : Value) : Decoded Bool :=
  match value.untagged with
  | .boolean b => .ok b
  | _ => refuse .boolean value

/-- A number of bytes. -/
def unsigned (value : Value) : Decoded UInt64 :=
  match value.untagged with
  | .integer n =>
    if n < 0 then .error (.outOfRange ⟨.integer n, .unsigned⟩) else .ok n.toNat.toUInt64
  | _ => refuse .unsigned value

mutual

/-- Whether a tag stands around a value or around a part of it. -/
def hasTag : Value → Bool
  | .tagged .. => true
  | .sequence items => itemsHaveTag items
  | .mapping entries => entriesHaveTag entries
  | _ => false

/-- Whether a tag stands in one of the items. -/
def itemsHaveTag : List Value → Bool
  | [] => false
  | item :: items => hasTag item || itemsHaveTag items

/-- Whether a tag stands in one of the keys and values. -/
def entriesHaveTag : List (Value × Value) → Bool
  | [] => false
  | (key, value) :: entries => hasTag key || hasTag value || entriesHaveTag entries

end

/-- The number of digits that a digest has at least. -/
def digestWidth : Nat := 8

/-- The decimal digits of `n`, with zeros in front of them up to `digestWidth`. -/
def digestOfNumber (n : Nat) : String :=
  let digits := Nat.toDigits 10 n
  String.ofList (List.replicate (digestWidth - digits.length) '0' ++ digits)

/-- A digest, if one is given. Eight digits without quotes read as a number, so a number stands for
its digits. -/
def digest (value : Value) : Decoded (Option String) :=
  match value with
  | .null => .ok none
  | .string s => .ok (some s)
  | .integer n =>
    if n < 0 then .error .unknownDigest else .ok (some (digestOfNumber n.toNat))
  | value => .error (if hasTag value then .taggedDigest else .unknownDigest)

/-- What `read` gives for a value, or nothing if the value is null. -/
def optional {α : Type} (read : Value → Decoded α) : Value → Decoded (Option α)
  | .null => .ok none
  | value => (read value).map some

/-! ## Collections -/

/-- The items of a sequence, each as `read` gives it. Null stands for the empty sequence. -/
def items {α : Type} (read : Value → Decoded α) (value : Value) : Decoded (List α) :=
  match value.untagged with
  | .null => .ok []
  | .sequence values => values.mapM read
  | _ => refuse .sequence value

/-- Reads the entry `e` of a mapping into a `draft`, with `put` for the field of its key. -/
def entry {δ : Type} (put : δ → String → Value → Decoded δ) (draft : δ) (e : Value × Value) :
    Decoded δ := do
  let key ← textAs .fieldName e.1
  put draft key e.2

/-- Reads the entries of a mapping into the draft `empty`, one after the other. In messages the
record is called `name`; null stands for the mapping without entries. -/
def record {δ : Type} (name : String) (put : δ → String → Value → Decoded δ) (empty : δ)
    (value : Value) : Decoded δ :=
  match value.untagged with
  | .null => .ok empty
  | .mapping entries => entries.foldlM (entry put) empty
  | _ => refuse (.record name) value

/-- Fills a `field` that must still be open: `old` is what it has already. -/
def fill {α : Type} (field : String) (old : Option α) (read : Decoded α) : Decoded (Option α) :=
  match old with
  | some _ => .error (.repeatedField field)
  | none => read.map some

/-- The value of a `field` that must have been given. -/
def require {α : Type} (field : String) : Option α → Decoded α
  | some x => .ok x
  | none => .error (.missingField field)

/-! ## Entries of the table -/

/-- An entry of the table while it is read. -/
structure SpecDraft where
  name : Option String := none
  payloadSize : Option UInt64 := none
  sha1 : Option (Option String) := none
  partitionSize : Option (Option UInt64) := none

/-- Puts `value` into the field of `key`. The length of the payload has two names, and unknown keys
are passed over. -/
def SpecDraft.put (draft : SpecDraft) (key : String) (value : Value) : Decoded SpecDraft :=
  match key with
  | "name" => do
    let name ← fill "name" draft.name (text value)
    pure { draft with name }
  | "payloadSize" | "size" => do
    let payloadSize ← fill "payloadSize" draft.payloadSize (unsigned value)
    pure { draft with payloadSize }
  | "sha1" => do
    let sha1 ← fill "sha1" draft.sha1 (digest value)
    pure { draft with sha1 }
  | "partitionSize" => do
    let partitionSize ← fill "partitionSize" draft.partitionSize (optional unsigned value)
    pure { draft with partitionSize }
  | _ => pure draft

/-- The entry that a `draft` amounts to. It must have a name and a length. -/
def SpecDraft.finish (draft : SpecDraft) : Decoded PartitionSpec := do
  let name ← require "name" draft.name
  let payloadSize ← require "payloadSize" draft.payloadSize
  pure ⟨name, payloadSize, draft.sha1.join, draft.partitionSize.join⟩

/-- The entry of the table that `value` stands for. -/
def spec (value : Value) : Decoded PartitionSpec := do
  let draft ← record "PartitionSpec" SpecDraft.put {} value
  draft.finish

/-- A table of partitions. -/
def table : Value → Decoded (List PartitionSpec) :=
  items spec

/-! ## Manifests -/

/-- A manifest while it is read. -/
structure ManifestDraft where
  kernelMem : Option String := none
  setTotalMem : Option Bool := none
  mtdPrefix : Option String := none
  osmem : Option String := none
  additionalCmdline : Option (Option String) := none
  skip : Option (Option (List String)) := none
  partitions : Option (List PartitionSpec) := none

/-- Puts `value` into the field of `key`. Unknown keys are passed over. -/
def ManifestDraft.put (draft : ManifestDraft) (key : String) (value : Value) :
    Decoded ManifestDraft :=
  match key with
  | "kernelMem" => do
    let kernelMem ← fill "kernelMem" draft.kernelMem (text value)
    pure { draft with kernelMem }
  | "setTotalMem" => do
    let setTotalMem ← fill "setTotalMem" draft.setTotalMem (boolean value)
    pure { draft with setTotalMem }
  | "mtdPrefix" => do
    let mtdPrefix ← fill "mtdPrefix" draft.mtdPrefix (text value)
    pure { draft with mtdPrefix }
  | "osmem" => do
    let osmem ← fill "osmem" draft.osmem (text value)
    pure { draft with osmem }
  | "additionalCmdline" => do
    let additionalCmdline ←
      fill "additionalCmdline" draft.additionalCmdline (optional text value)
    pure { draft with additionalCmdline }
  | "skip" => do
    let skip ← fill "skip" draft.skip (optional (items text) value)
    pure { draft with skip }
  | "partitions" => do
    let partitions ← fill "partitions" draft.partitions (table value)
    pure { draft with partitions }
  | _ => pure draft

/-- The manifest that a `draft` amounts to. It must have a table; boot parameters that it lacks are
those of `BootParameters.unstated`. -/
def ManifestDraft.finish (draft : ManifestDraft) : Decoded Manifest := do
  let partitions ← require "partitions" draft.partitions
  let unstated := BootParameters.unstated
  pure {
    kernelMem := draft.kernelMem.getD unstated.kernelMem
    setTotalMem := draft.setTotalMem.getD unstated.setTotalMem
    mtdPrefix := draft.mtdPrefix.getD unstated.mtdPrefix
    osmem := draft.osmem.getD unstated.osmem
    additionalCmdline := draft.additionalCmdline.join
    skip := draft.skip.join
    partitions }

/-- The manifest that `value` stands for. -/
def manifest (value : Value) : Decoded Manifest := do
  let draft ← record "Manifest" ManifestDraft.put {} value
  draft.finish

/-! ## Device descriptors -/

/-- Puts `value` into the only field of a memory chip, if `key` is its name. -/
def putPartitions (draft : Option (List PartitionSpec)) (key : String) (value : Value) :
    Decoded (Option (List PartitionSpec)) :=
  if key = "partitions" then fill "partitions" draft (table value) else .ok draft

/-- The memory chip that `value` stands for. One without a table has an empty one. -/
def romDescriptor (value : Value) : Decoded RomDescriptor := do
  let draft ← record "RomDescriptor" putPartitions none value
  pure ⟨draft.getD []⟩

/-- Puts `value` into the only field of a device descriptor, if `key` is its name. -/
def putRom (draft : Option (List RomDescriptor)) (key : String) (value : Value) :
    Decoded (Option (List RomDescriptor)) :=
  if key = "rom" then fill "rom" draft (items romDescriptor value) else .ok draft

/-- The device descriptor that `value` stands for. -/
def deviceDescriptor (value : Value) : Decoded DeviceDescriptor := do
  let draft ← record "DeviceDescriptor" putRom none value
  let rom ← require "rom" draft
  pure ⟨rom⟩

end Decode

/-! ## Headers -/

namespace ManifestDocument

/-- The header that `value` stands for, of the shape that its keys show: a table of its own makes it
a manifest, else memory chips make it a device descriptor. -/
def ofValue (value : Yaml.Value) : Except ManifestFault ManifestDocument :=
  if (value.get? "partitions").isSome then (Decode.manifest value).map .bundle
  else if (value.get? "rom").isSome then do
    let descriptor ← Decode.deviceDescriptor value
    if descriptor.rom.isEmpty then .error .noRom else pure (.device descriptor)
  else .error .noTable

/-- The header `document` itself, if the names in its table are distinct. -/
def requireDistinct (document : ManifestDocument) : Except ManifestFault ManifestDocument :=
  match firstRepeated [] document.partitions with
  | some name => .error (.repeatedName name)
  | none => .ok document

/-- Reads the header in `text`: first its syntax, then its fields, then the names in its table. -/
def ofText (text : ByteArray) : Except ManifestFault ManifestDocument :=
  match Yaml.Value.ofText? text with
  | none => .error .malformed
  | some value => (ofValue value).bind requireDistinct

end ManifestDocument

end FirmwareBundle
