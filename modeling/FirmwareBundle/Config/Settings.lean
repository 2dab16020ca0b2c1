import FirmwareBundle.Config.Fault
import FirmwareBundle.Manifest.Basic
import FirmwareBundle.Toml.Document
/-!
# Settings

Settings are a TOML document with two tables, one for the parameters of new manifests and one for
inspections. Whatever is not given keeps its standard value, and names that are not known are
passed over.

## Main definitions

* `FirmwareBundle.Settings` — the settings.
* `FirmwareBundle.Settings.ofEntries` — the settings that a document asks for.
* `FirmwareBundle.Settings.ofText` — the same from text.

## Implementation notes

A table may also be given as an array, which holds the values of its fields in their order.
-/

namespace FirmwareBundle

open Toml

/-! ## Standard values -/

/-- The parameters of booting that new manifests get where no settings say otherwise. -/
def BootParameters.standard : BootParameters :=
  ⟨totalMemoryToken, true, "hi_sfc:", "32M"⟩

/-- What inspections use: the name of the file that all partitions are written to. -/
structure InspectSettings where
  fullImageName : String
  deriving DecidableEq

/-- The settings of inspections where nothing else is said. -/
def InspectSettings.standard : InspectSettings :=
  ⟨"ff.img"⟩

/-- All settings. -/
structure Settings where
  manifest : BootParameters := .standard
  inspect : InspectSettings := .standard
  deriving DecidableEq

/-! ## Reading -/

/-- A value that does not fit its field, with its place if it has one. -/
structure SettingFault where
  mismatch : Mismatch
  span : Option Span

namespace SettingFault

/-- Refuses `item`, since `expected` stands for another type. -/
def refuse {α : Type} (expected : Expected) (item : Item) : Except SettingFault α :=
  .error ⟨⟨item.found, expected⟩, item.span⟩

/-- Puts a `fault` without a place at `span`, the key of its item. -/
def orAt (fault : SettingFault) (span : Span) : SettingFault :=
  { fault with span := some (fault.span.getD span) }

end SettingFault

/-- A text. -/
def textSetting : Item → Except SettingFault String
  | .scalar (.string s) _ => .ok s
  | item => SettingFault.refuse .string item

/-- A truth value. -/
def booleanSetting : Item → Except SettingFault Bool
  | .scalar (.boolean b) _ => .ok b
  | item => SettingFault.refuse .boolean item

/-- Reads the fields of a `record` into `start`: by their names from a table, in the order of
`names` from an array. A time counts as a table without known names. -/
def recordSetting {α : Type} (record : String) (names : List String)
    (put : α → String → Item → Except SettingFault α) (start : α) (item : Item) :
    Except SettingFault α :=
  match item with
  | .table _ entries _ =>
    entries.foldlM (fun x (key, item) =>
      (put x key.name item).mapError (·.orAt key.span)) start
  | .array items _ | .tables items _ =>
    (names.zip items).foldlM (fun x (name, item) => put x name item) start
  | .scalar .datetime _ => .ok start
  | item => SettingFault.refuse (.record record) item

namespace BootParameters

/-- The names of the parameters. -/
def settingNames : List String := ["kernel_mem", "set_total_mem", "mtd_prefix", "osmem"]

/-- Puts `item` into the parameter `name`. Unknown names are passed over. -/
def put (parameters : BootParameters) (name : String) (item : Item) :
    Except SettingFault BootParameters :=
  match name with
  | "kernel_mem" => (textSetting item).map fun kernelMem => { parameters with kernelMem }
  | "set_total_mem" => (booleanSetting item).map fun setTotalMem => { parameters with setTotalMem }
  | "mtd_prefix" => (textSetting item).map fun mtdPrefix => { parameters with mtdPrefix }
  | "osmem" => (textSetting item).map fun osmem => { parameters with osmem }
  | _ => .ok parameters

/-- The parameters that an item asks for. -/
def ofItem : Item → Except SettingFault BootParameters :=
  recordSetting "ManifestDefaults" settingNames put .standard

end BootParameters

namespace InspectSettings

/-- The names of the settings. -/
def settingNames : List String := ["full_image_name"]

/-- Puts `item` into the setting `name`. Unknown names are passed over. -/
def put (settings : InspectSettings) (name : String) (item : Item) :
    Except SettingFault InspectSettings :=
  if name = "full_image_name" then
    (textSetting item).map fun fullImageName => { settings with fullImageName }
  else .ok settings

/-- The settings that an item asks for. -/
def ofItem : Item → Except SettingFault InspectSettings :=
  recordSetting "InspectConfig" settingNames put .standard

end InspectSettings

namespace Settings

/-- Puts `item` into the table `name`. Unknown names are passed over. -/
def put (settings : Settings) (name : String) (item : Item) : Except SettingFault Settings :=
  match name with
  | "manifest" => (BootParameters.ofItem item).map fun manifest => { settings with manifest }
  | "inspect" => (InspectSettings.ofItem item).map fun inspect => { settings with inspect }
  | _ => .ok settings

/-- The settings that the `entries` of a document ask for. What they do not say is standard. -/
def ofEntries (entries : Entries) : Except SettingFault Settings :=
  recordSetting "AppConfig" [] put {} (.table .header entries none)

/-- Reads the settings in `text`. A fault without a place is told at the start. -/
def ofText (text : String) : Except ConfigFault Settings :=
  match Entries.ofText? text with
  | none => .error .malformed
  | some entries =>
    (ofEntries entries).mapError fun fault =>
      .mismatch (Diagnostic.ofSpan text (fault.span.getD ⟨0, 0⟩) fault.mismatch.ofType)

end Settings

end FirmwareBundle
