import FirmwareBundle.Config.Settings
import FirmwareBundle.Proofs.DistinctKeys
import FirmwareBundle.Proofs.Results
/-!
# Settings over their standard values

A document that names only some settings leaves the others as they are. Each setting is decided by
the item of its own name alone, wherever that stands and whatever else the document holds; an item
of the wrong type is told, and then there are no settings at all.

## Main definitions

* `FirmwareBundle.SettingField` — a setting of a record.
* `FirmwareBundle.PutsFields` — a way of putting items into a record goes by its settings.
* `FirmwareBundle.Toml.Entries.at?` — the item of a setting in a document.
* `FirmwareBundle.ReadsScalar` — a reader of items of one type.
* `FirmwareBundle.knownSettings` — the settings that have a name, with their types.

## Main results

* `FirmwareBundle.PutsFields.recordSetting_eq_ok_iff` — the records that are read from a table.
* `FirmwareBundle.PutsFields.exists_of_recordSetting_eq_error` — the faults in a table.
* `FirmwareBundle.Settings.ofText_partial` — the settings of a document.
-/

namespace FirmwareBundle

open Toml

/-! ## Records read from a table -/

/-- A setting of a record of type `α`: its `name`, how an item is read for it, and what a record has
for it, as `get` tells. -/
structure SettingField (α : Type) where
  Content : Type
  name : String
  read : Item → Except SettingFault Content
  get : α → Content

/-- What the `entries` of a table make of a setting between the records `start` and `last`: it is
read from the item of its name, and without one it stays as it is. -/
def SettingField.Reads {α : Type} (field : SettingField α) (entries : Entries) (start last : α) :
    Prop :=
  match entries.get? field.name with
  | none => field.get last = field.get start
  | some item => field.read item = .ok (field.get last)

/-- A way to `put` an item under a name into a record goes by the settings `fields`: the setting of
that name is read from the item and the others stay as they are, and nothing but that reading is
refused. A record is given by its settings. -/
structure PutsFields {α : Type} (put : α → String → Item → Except SettingFault α)
    (fields : List (SettingField α)) : Prop where
  own : ∀ {x x' name item}, put x name item = .ok x' → ∀ field ∈ fields, field.name = name →
    field.read item = .ok (field.get x')
  other : ∀ {x x' name item}, put x name item = .ok x' → ∀ field ∈ fields, field.name ≠ name →
    field.get x' = field.get x
  fault : ∀ {x name item fault}, put x name item = .error fault →
    ∃ field ∈ fields, field.name = name ∧ field.read item = .error fault
  ext : ∀ {x y}, (∀ field ∈ fields, field.get x = field.get y) → x = y

namespace PutsFields

variable {α : Type} {put : α → String → Item → Except SettingFault α}
  {fields : List (SettingField α)} {record : String} {names : List String} {form : TableForm}
  {entries : Entries} {span : Option Span} {start last : α}

/-- The first entry of a table is put into `start` before the others are put into what comes of
it. -/
lemma recordSetting_cons (put : α → String → Item → Except SettingFault α) (key : Key)
    (item : Item) (entries : Entries) :
    recordSetting record names put start (.table form ((key, item) :: entries) span) =
      ((put start key.name item).mapError (·.orAt key.span)).bind fun next =>
        recordSetting record names put next (.table form entries span) := rfl

/-- **What is read for each setting** of the record `last` is what the `entries` make of it.

**Proof sketch.** Induction on `entries`. If the first has the name of the setting, none of the
others does, since names are distinct, so they leave it as the first has made it (`PutsFields.own`).
Otherwise the first leaves it as it is (`PutsFields.other`). -/
theorem reads_of_recordSetting (h : PutsFields put fields) (hdistinct : entries.Distinct)
    (hread : recordSetting record names put start (.table form entries span) = .ok last)
    {field : SettingField α} (hfield : field ∈ fields) : field.Reads entries start last := by
  induction entries generalizing start with
  | nil =>
    obtain rfl := Except.ok.inj hread
    rfl
  | cons entry entries ih =>
    obtain ⟨key, item⟩ := entry
    rw [recordSetting_cons] at hread
    cases hput : put start key.name item with
    | error fault =>
      rw [hput] at hread
      cases hread
    | ok next =>
      rw [hput] at hread
      have hrest := ih hdistinct.of_cons hread
      rw [SettingField.Reads] at hrest ⊢
      rw [Entries.get?_cons]
      by_cases hname : key.name = field.name
      · have hnone : Entries.get? entries field.name = none := by
          rw [Entries.get?_eq_none_iff, ← hname]
          exact (List.nodup_cons.1 hdistinct.names_nodup).1
        rw [hnone] at hrest
        rw [if_pos hname]
        dsimp only at hrest ⊢
        rw [hrest]
        exact h.own hput field hfield hname.symm
      · rw [h.other hput field hfield (Ne.symm hname)] at hrest
        rw [if_neg hname]
        exact hrest

/-- **A table is refused** for the item of a setting that is refused, and this item is the one that
the table has under the name of that setting.

**Proof sketch.** Induction on `entries`, up to the first that is refused (`PutsFields.fault`). Its
name is not among the names before it, so it is the item that a search for that name finds. -/
theorem exists_of_recordSetting_eq_error (h : PutsFields put fields) (hdistinct : entries.Distinct)
    {fault : SettingFault}
    (hread : recordSetting record names put start (.table form entries span) = .error fault) :
    ∃ field ∈ fields, ∃ item inner, entries.get? field.name = some item ∧
      field.read item = .error inner ∧ fault.mismatch = inner.mismatch := by
  induction entries generalizing start with
  | nil => cases hread
  | cons entry entries ih =>
    obtain ⟨key, item⟩ := entry
    rw [recordSetting_cons] at hread
    cases hput : put start key.name item with
    | error inner =>
      rw [hput] at hread
      obtain rfl := Except.error.inj hread
      obtain ⟨field, hfield, hname, hinner⟩ := h.fault hput
      exact ⟨field, hfield, item, inner, by rw [Entries.get?_cons, if_pos hname.symm], hinner, rfl⟩
    | ok next =>
      rw [hput] at hread
      obtain ⟨field, hfield, found, inner, hget, hinner, hfault⟩ := ih hdistinct.of_cons hread
      refine ⟨field, hfield, found, inner, ?_, hinner, hfault⟩
      have hne : key.name ≠ field.name := by
        intro hname
        obtain ⟨other, hmem, hother⟩ := Entries.exists_mem_of_get?_eq_some hget
        exact (List.nodup_cons.1 hdistinct.names_nodup).1
          (List.mem_map.2 ⟨_, hmem, hother.trans hname.symm⟩)
      rw [Entries.get?_cons, if_neg hne, hget]

/-- **A record is read from a table** if and only if it is what the `entries` make of every setting
in `fields`.

**Proof sketch.** A record that is read has this property by `reads_of_recordSetting`. Conversely,
if `last` has it, no item of a setting is refused, so some record is read
(`exists_of_recordSetting_eq_error`), and it agrees with `last` in every setting, so it is `last`
(`PutsFields.ext`). -/
theorem recordSetting_eq_ok_iff (h : PutsFields put fields) (hdistinct : entries.Distinct) :
    recordSetting record names put start (.table form entries span) = .ok last ↔
      ∀ field ∈ fields, field.Reads entries start last := by
  refine ⟨fun hread field hfield => h.reads_of_recordSetting hdistinct hread hfield, fun hall => ?_⟩
  cases hread : recordSetting record names put start (.table form entries span) with
  | error fault =>
    obtain ⟨field, hfield, item, inner, hget, hinner, -⟩ :=
      h.exists_of_recordSetting_eq_error hdistinct hread
    have hreads := hall field hfield
    rw [SettingField.Reads, hget] at hreads
    cases hreads.symm.trans hinner
  | ok other =>
    refine congrArg Except.ok (h.ext fun field hfield => ?_)
    have hother := h.reads_of_recordSetting hdistinct hread hfield
    have hlast := hall field hfield
    rw [SettingField.Reads] at hother hlast
    cases hget : entries.get? field.name with
    | none =>
      rw [hget] at hother hlast
      exact hother.trans hlast.symm
    | some item =>
      rw [hget] at hother hlast
      exact Except.ok.inj (hother.symm.trans hlast)

end PutsFields

/-! ## The records of settings -/

/-- The settings of new manifests. -/
def bootFields : List (SettingField BootParameters) :=
  [⟨String, "kernel_mem", textSetting, (·.kernelMem)⟩,
    ⟨Bool, "set_total_mem", booleanSetting, (·.setTotalMem)⟩,
    ⟨String, "mtd_prefix", textSetting, (·.mtdPrefix)⟩,
    ⟨String, "osmem", textSetting, (·.osmem)⟩]

/-- **The parameters of new manifests** are read setting by setting, as `bootFields` lists them.

**Proof sketch.** There are four names, and an item of each of them replaces its own setting and no
other, or is the fault. An item of another name is passed over. -/
theorem putsFields_boot : PutsFields BootParameters.put bootFields where
  own := by
    intro x x' name item hput field hfield hname
    simp only [bootFields, List.mem_cons, List.not_mem_nil, or_false] at hfield
    rcases hfield with rfl | rfl | rfl | rfl
    all_goals
      subst hname
      obtain ⟨content, hread, rfl⟩ := map_eq_ok_iff.1 hput
      exact hread
  other := by
    intro x x' name item hput field hfield hname
    simp only [bootFields, List.mem_cons, List.not_mem_nil, or_false] at hfield
    unfold BootParameters.put at hput
    split at hput
    case h_5 =>
      obtain rfl := Except.ok.inj hput
      rfl
    -- One setting is replaced: it is not the one in question, which has another name.
    all_goals
      obtain ⟨content, -, rfl⟩ := map_eq_ok_iff.1 hput
      rcases hfield with rfl | rfl | rfl | rfl <;> first | rfl | exact absurd rfl hname
  fault := by
    intro x name item fault hput
    simp only [bootFields, List.exists_mem_cons_iff]
    unfold BootParameters.put at hput
    split at hput
    · exact .inl ⟨rfl, map_eq_error_iff.1 hput⟩
    · exact .inr (.inl ⟨rfl, map_eq_error_iff.1 hput⟩)
    · exact .inr (.inr (.inl ⟨rfl, map_eq_error_iff.1 hput⟩))
    · exact .inr (.inr (.inr (.inl ⟨rfl, map_eq_error_iff.1 hput⟩)))
    · cases hput
  ext := by
    intro x y h
    simp only [bootFields, List.forall_mem_cons] at h
    obtain ⟨hkernelMem, hsetTotalMem, hmtdPrefix, hosmem, -⟩ := h
    cases x
    cases y
    simp_all

/-- The settings of inspections. -/
def inspectFields : List (SettingField InspectSettings) :=
  [⟨String, "full_image_name", textSetting, (·.fullImageName)⟩]

/-- **The settings of inspections** are read by the only one in `inspectFields`. -/
theorem putsFields_inspect : PutsFields InspectSettings.put inspectFields where
  own := by
    intro x x' name item hput field hfield hname
    obtain rfl := List.mem_singleton.1 hfield
    rw [InspectSettings.put, if_pos hname.symm] at hput
    obtain ⟨content, hread, rfl⟩ := map_eq_ok_iff.1 hput
    exact hread
  other := by
    intro x x' name item hput field hfield hname
    obtain rfl := List.mem_singleton.1 hfield
    rw [InspectSettings.put, if_neg (Ne.symm hname)] at hput
    obtain rfl := Except.ok.inj hput
    rfl
  fault := by
    intro x name item fault hput
    rw [InspectSettings.put] at hput
    split at hput
    · rename_i hname
      exact ⟨_, List.mem_singleton_self _, hname.symm, map_eq_error_iff.1 hput⟩
    · cases hput
  ext := by
    intro x y h
    have hname := h _ (List.mem_singleton_self _)
    cases x
    cases y
    exact congrArg InspectSettings.mk hname

/-- The two tables of a document. -/
def settingsFields : List (SettingField Settings) :=
  [⟨BootParameters, "manifest", BootParameters.ofItem, (·.manifest)⟩,
    ⟨InspectSettings, "inspect", InspectSettings.ofItem, (·.inspect)⟩]

/-- **All settings** are read table by table, as `settingsFields` lists them. -/
theorem putsFields_settings : PutsFields Settings.put settingsFields where
  own := by
    intro x x' name item hput field hfield hname
    simp only [settingsFields, List.mem_cons, List.not_mem_nil, or_false] at hfield
    rcases hfield with rfl | rfl
    all_goals
      subst hname
      obtain ⟨content, hread, rfl⟩ := map_eq_ok_iff.1 hput
      exact hread
  other := by
    intro x x' name item hput field hfield hname
    simp only [settingsFields, List.mem_cons, List.not_mem_nil, or_false] at hfield
    unfold Settings.put at hput
    split at hput
    case h_3 =>
      obtain rfl := Except.ok.inj hput
      rfl
    all_goals
      obtain ⟨content, -, rfl⟩ := map_eq_ok_iff.1 hput
      rcases hfield with rfl | rfl <;> first | rfl | exact absurd rfl hname
  fault := by
    intro x name item fault hput
    simp only [settingsFields, List.exists_mem_cons_iff]
    unfold Settings.put at hput
    split at hput
    · exact .inl ⟨rfl, map_eq_error_iff.1 hput⟩
    · exact .inr (.inl ⟨rfl, map_eq_error_iff.1 hput⟩)
    · cases hput
  ext := by
    intro x y h
    simp only [settingsFields, List.forall_mem_cons] at h
    obtain ⟨hmanifest, hinspect, -⟩ := h
    cases x
    cases y
    simp_all

/-! ## Items of a document -/

namespace Toml

/-- Whether an item is a table, in whatever form it is written. -/
def Item.isTable : Item → Bool
  | .table .. => true
  | _ => false

/-- The text of an item. -/
def Item.text? : Item → Option String
  | .scalar (.string s) _ => some s
  | _ => none

/-- The truth value of an item. -/
def Item.boolean? : Item → Option Bool
  | .scalar (.boolean b) _ => some b
  | _ => none

/-- Whether an item is of the type that is expected of a setting. -/
def Item.fits : Expected → Item → Bool
  | .string, item => item.text?.isSome
  | .boolean, item => item.boolean?.isSome
  | _, _ => false

/-- The entries of the table under `name`, in whatever form it is written; there are none without
such a table. -/
def Entries.tableAt (entries : Entries) (name : String) : Entries :=
  match entries.get? name with
  | some (.table _ inner _) => inner
  | _ => []

/-- The item under `name` in the table under `table`. -/
def Entries.at? (entries : Entries) (table name : String) : Option Item :=
  (entries.tableAt table).get? name

/-- The table under `name` repeats no name in a document that does not. -/
private lemma Entries.Distinct.tableAt {entries : Entries} (h : entries.Distinct) (name : String) :
    (entries.tableAt name).Distinct := by
  rw [Entries.tableAt]
  split
  · rename_i form inner span hget
    exact Item.distinct_table_iff.1 (h.get? hget)
  · exact .nil

end Toml

/-- A reader of items of one type: `read` gives the content that `content?` finds in an item and
refuses an item without any, and these are the items that do not fit `expected`. -/
structure ReadsScalar {β : Type} (expected : Expected) (content? : Item → Option β)
    (read : Item → Except SettingFault β) : Prop where
  read_eq : ∀ item, read item =
    match content? item with
    | some x => .ok x
    | none => SettingFault.refuse expected item
  fits_eq : ∀ item, item.fits expected = (content? item).isSome

/-- `textSetting` reads texts. -/
private lemma readsScalar_text : ReadsScalar .string Item.text? textSetting where
  read_eq := by
    intro item
    cases item with
    | scalar value span => cases value <;> rfl
    | array => rfl
    | table => rfl
    | tables => rfl
  fits_eq := fun _ => rfl

/-- `booleanSetting` reads truth values. -/
private lemma readsScalar_boolean : ReadsScalar .boolean Item.boolean? booleanSetting where
  read_eq := by
    intro item
    cases item with
    | scalar value span => cases value <;> rfl
    | array => rfl
    | table => rfl
    | tables => rfl
  fits_eq := fun _ => rfl

namespace ReadsScalar

variable {β : Type} {expected : Expected} {content? : Item → Option β}
  {read : Item → Except SettingFault β} (h : ReadsScalar expected content? read)

include h

/-- The content `x` is read of an item if and only if `content?` finds it there. -/
lemma eq_ok_iff {item : Item} {x : β} : read item = .ok x ↔ content? item = some x := by
  rw [h.read_eq]
  cases content? item <;> simp [SettingFault.refuse]

/-- An item that is refused does not fit `expected`, and this is what the fault tells. -/
private lemma of_eq_error {item : Item} {fault : SettingFault} (herror : read item = .error fault) :
    fault.mismatch = ⟨item.found, expected⟩ ∧ item.fits expected = false := by
  rw [h.read_eq] at herror
  rw [h.fits_eq]
  cases hcontent : content? item with
  | some x =>
    rw [hcontent] at herror
    cases herror
  | none =>
    rw [hcontent] at herror
    obtain rfl := Except.error.inj herror
    exact ⟨rfl, rfl⟩

end ReadsScalar

/-! ## Settings of a document -/

/-- The setting `x` has the value that `read` finds in its item, or its `standard` value where there
is no item. -/
def IsSetting {α : Type} (read : Item → Option α) (standard : α) (item? : Option Item) (x : α) :
    Prop :=
  match item? with
  | none => x = standard
  | some item => read item = some x

instance {α : Type} [DecidableEq α] (read : Item → Option α) (standard : α)
    (item? : Option Item) (x : α) : Decidable (IsSetting read standard item? x) :=
  match item? with
  | none => inferInstanceAs (Decidable (x = standard))
  | some item => inferInstanceAs (Decidable (read item = some x))

/-- The `settings` that a document asks for: each has the value of the item of its own name in its
own table, or its standard value. -/
structure Settings.Overlays (settings : Settings) (entries : Entries) : Prop where
  kernelMem : IsSetting Item.text? "$\x7btotalmem\x7d" (entries.at? "manifest" "kernel_mem")
    settings.manifest.kernelMem
  setTotalMem : IsSetting Item.boolean? true (entries.at? "manifest" "set_total_mem")
    settings.manifest.setTotalMem
  mtdPrefix : IsSetting Item.text? "hi_sfc:" (entries.at? "manifest" "mtd_prefix")
    settings.manifest.mtdPrefix
  osmem : IsSetting Item.text? "32M" (entries.at? "manifest" "osmem") settings.manifest.osmem
  fullImageName : IsSetting Item.text? "ff.img" (entries.at? "inspect" "full_image_name")
    settings.inspect.fullImageName

instance (settings : Settings) (entries : Entries) : Decidable (settings.Overlays entries) :=
  decidable_of_iff
    (IsSetting Item.text? "$\x7btotalmem\x7d" (entries.at? "manifest" "kernel_mem")
        settings.manifest.kernelMem ∧
      IsSetting Item.boolean? true (entries.at? "manifest" "set_total_mem")
        settings.manifest.setTotalMem ∧
      IsSetting Item.text? "hi_sfc:" (entries.at? "manifest" "mtd_prefix")
        settings.manifest.mtdPrefix ∧
      IsSetting Item.text? "32M" (entries.at? "manifest" "osmem") settings.manifest.osmem ∧
      IsSetting Item.text? "ff.img" (entries.at? "inspect" "full_image_name")
        settings.inspect.fullImageName)
    ⟨fun ⟨h1, h2, h3, h4, h5⟩ => ⟨h1, h2, h3, h4, h5⟩, fun h => ⟨h.1, h.2, h.3, h.4, h.5⟩⟩

/-- A setting that has a name: its table, its name in it, and its type. -/
structure KnownSetting where
  table : String
  name : String
  expected : Expected

/-- The settings that have a name. -/
def knownSettings : List KnownSetting :=
  [⟨"manifest", "kernel_mem", .string⟩, ⟨"manifest", "set_total_mem", .boolean⟩,
    ⟨"manifest", "mtd_prefix", .string⟩, ⟨"manifest", "osmem", .string⟩,
    ⟨"inspect", "full_image_name", .string⟩]

/-- The item of a setting in a document, if there is one, is of the type of the setting. -/
def KnownSetting.Fits (setting : KnownSetting) (entries : Entries) : Prop :=
  ∀ item, entries.at? setting.table setting.name = some item → item.fits setting.expected

instance (setting : KnownSetting) (entries : Entries) : Decidable (setting.Fits entries) :=
  decidable_of_iff ((entries.at? setting.table setting.name).all (·.fits setting.expected))
    (by simp [KnownSetting.Fits, Option.all_eq_true])

section Document

variable {entries : Entries}

/-- A setting of one type has the content of its item in the table `entries`, or stays as it is in
`start`. -/
lemma ReadsScalar.reads_iff {β : Type} {expected : Expected} {content? : Item → Option β}
    {read : Item → Except SettingFault β} (h : ReadsScalar expected content? read) {α : Type}
    {name : String} {get : α → β} {start last : α} :
    SettingField.Reads ⟨β, name, read, get⟩ entries start last ↔
      IsSetting content? (get start) (entries.get? name) (get last) := by
  rw [SettingField.Reads, IsSetting.eq_def]
  cases entries.get? name with
  | none => exact Iff.rfl
  | some item => exact h.eq_ok_iff

/-- A record in a table of its own is read from the entries of that table, `entries.tableAt name`,
and there are none if there is no such table. -/
lemma reads_record_iff {α β : Type} {record name : String} {names : List String}
    {put : β → String → Item → Except SettingFault β} {standard : β} {get : α → β} {start last : α}
    (hstart : get start = standard) (htable : (entries.get? name).all Item.isTable) :
    SettingField.Reads ⟨β, name, recordSetting record names put standard, get⟩ entries start last ↔
      recordSetting record names put standard (.table .header (entries.tableAt name) none) =
        .ok (get last) := by
  rw [SettingField.Reads, Entries.tableAt]
  dsimp only
  cases hget : entries.get? name with
  | none =>
    rw [hstart, eq_comm]
    exact (Except.ok.injEq _ _).symm.to_iff
  | some item =>
    rw [hget] at htable
    cases item with
    | table form inner span => exact Iff.rfl
    | scalar => cases htable
    | array => cases htable
    | tables => cases htable

/-- The `parameters` of new manifests that `entries` ask for: each is read from its own item or has
its standard value, by `putsFields_boot`. -/
lemma BootParameters.ofItem_eq_ok_iff (h : entries.Distinct) {form : TableForm}
    {span : Option Span} {parameters : BootParameters} :
    ofItem (.table form entries span) = .ok parameters ↔
      IsSetting Item.text? "$\x7btotalmem\x7d" (entries.get? "kernel_mem") parameters.kernelMem ∧
      IsSetting Item.boolean? true (entries.get? "set_total_mem") parameters.setTotalMem ∧
      IsSetting Item.text? "hi_sfc:" (entries.get? "mtd_prefix") parameters.mtdPrefix ∧
      IsSetting Item.text? "32M" (entries.get? "osmem") parameters.osmem := by
  rw [ofItem, putsFields_boot.recordSetting_eq_ok_iff h]
  simp only [bootFields, List.forall_mem_cons, readsScalar_text.reads_iff,
    readsScalar_boolean.reads_iff]
  constructor
  · rintro ⟨hkernelMem, hsetTotalMem, hmtdPrefix, hosmem, -⟩
    exact ⟨hkernelMem, hsetTotalMem, hmtdPrefix, hosmem⟩
  · rintro ⟨hkernelMem, hsetTotalMem, hmtdPrefix, hosmem⟩
    exact ⟨hkernelMem, hsetTotalMem, hmtdPrefix, hosmem, by simp⟩

/-- The `settings` of inspections that `entries` ask for, by `putsFields_inspect`. -/
lemma InspectSettings.ofItem_eq_ok_iff (h : entries.Distinct) {form : TableForm}
    {span : Option Span} {settings : InspectSettings} :
    ofItem (.table form entries span) = .ok settings ↔
      IsSetting Item.text? "ff.img" (entries.get? "full_image_name") settings.fullImageName := by
  rw [ofItem, putsFields_inspect.recordSetting_eq_ok_iff h]
  simp only [inspectFields, List.forall_mem_singleton, readsScalar_text.reads_iff]
  exact Iff.rfl

/-- **The settings of a document** are those that it asks for, if `manifest` and `inspect` are
tables where they are given.

**Proof sketch.** By `putsFields_settings` the two tables are read for themselves
(`reads_record_iff`), and what is read of each is known from `BootParameters.ofItem_eq_ok_iff` and
`InspectSettings.ofItem_eq_ok_iff`. -/
theorem Settings.ofEntries_eq_ok_iff (h : entries.Distinct)
    (hmanifest : (entries.get? "manifest").all Item.isTable)
    (hinspect : (entries.get? "inspect").all Item.isTable) {settings : Settings} :
    ofEntries entries = .ok settings ↔ settings.Overlays entries := by
  have hboot : SettingField.Reads ⟨_, "manifest", BootParameters.ofItem, (·.manifest)⟩ entries {}
      settings ↔ BootParameters.ofItem (.table .header (entries.tableAt "manifest") none) =
        .ok settings.manifest := reads_record_iff rfl hmanifest
  have hname : SettingField.Reads ⟨_, "inspect", InspectSettings.ofItem, (·.inspect)⟩ entries {}
      settings ↔ InspectSettings.ofItem (.table .header (entries.tableAt "inspect") none) =
        .ok settings.inspect := reads_record_iff rfl hinspect
  rw [ofEntries, putsFields_settings.recordSetting_eq_ok_iff h]
  simp only [settingsFields, List.forall_mem_cons]
  rw [hboot, hname, BootParameters.ofItem_eq_ok_iff (h.tableAt _),
    InspectSettings.ofItem_eq_ok_iff (h.tableAt _)]
  constructor
  · rintro ⟨⟨hkernelMem, hsetTotalMem, hmtdPrefix, hosmem⟩, hfullImageName, -⟩
    exact ⟨hkernelMem, hsetTotalMem, hmtdPrefix, hosmem, hfullImageName⟩
  · rintro ⟨hkernelMem, hsetTotalMem, hmtdPrefix, hosmem, hfullImageName⟩
    exact ⟨⟨hkernelMem, hsetTotalMem, hmtdPrefix, hosmem⟩, hfullImageName, by simp⟩

/-- The parameters of new manifests are refused for an `item` that does not fit the type `expected`
of its setting. -/
private lemma BootParameters.exists_of_ofItem_eq_error (h : entries.Distinct) (form : TableForm)
    (span : Option Span) {fault : SettingFault}
    (hread : ofItem (.table form entries span) = .error fault) :
    ∃ name expected item, ⟨"manifest", name, expected⟩ ∈ knownSettings ∧
      entries.get? name = some item ∧ item.fits expected = false ∧
      fault.mismatch = ⟨item.found, expected⟩ := by
  obtain ⟨field, hfield, item, inner, hget, hinner, hfault⟩ :=
    putsFields_boot.exists_of_recordSetting_eq_error h hread
  simp only [bootFields, List.mem_cons, List.not_mem_nil, or_false] at hfield
  rcases hfield with rfl | rfl | rfl | rfl
  · obtain ⟨htold, hfits⟩ := readsScalar_text.of_eq_error hinner
    exact ⟨"kernel_mem", .string, item, by simp [knownSettings], hget, hfits, hfault.trans htold⟩
  · obtain ⟨htold, hfits⟩ := readsScalar_boolean.of_eq_error hinner
    exact ⟨"set_total_mem", .boolean, item, by simp [knownSettings], hget, hfits,
      hfault.trans htold⟩
  · obtain ⟨htold, hfits⟩ := readsScalar_text.of_eq_error hinner
    exact ⟨"mtd_prefix", .string, item, by simp [knownSettings], hget, hfits, hfault.trans htold⟩
  · obtain ⟨htold, hfits⟩ := readsScalar_text.of_eq_error hinner
    exact ⟨"osmem", .string, item, by simp [knownSettings], hget, hfits, hfault.trans htold⟩

/-- The settings of inspections are refused for an `item` that does not fit the type `expected` of
its setting. -/
private lemma InspectSettings.exists_of_ofItem_eq_error (h : entries.Distinct) (form : TableForm)
    (span : Option Span) {fault : SettingFault}
    (hread : ofItem (.table form entries span) = .error fault) :
    ∃ name expected item, ⟨"inspect", name, expected⟩ ∈ knownSettings ∧
      entries.get? name = some item ∧ item.fits expected = false ∧
      fault.mismatch = ⟨item.found, expected⟩ := by
  obtain ⟨field, hfield, item, inner, hget, hinner, hfault⟩ :=
    putsFields_inspect.exists_of_recordSetting_eq_error h hread
  obtain rfl := List.mem_singleton.1 hfield
  obtain ⟨htold, hfits⟩ := readsScalar_text.of_eq_error hinner
  exact ⟨"full_image_name", .string, item, by simp [knownSettings], hget, hfits,
    hfault.trans htold⟩

/-- An `item` under `name` that is a table has the entries `entries.tableAt name`. -/
private lemma Toml.Entries.exists_of_isTable {name : String} {item : Item}
    (htable : (entries.get? name).all Item.isTable) (hget : entries.get? name = some item) :
    ∃ form span, item = .table form (entries.tableAt name) span := by
  rw [hget] at htable
  rw [tableAt, hget]
  cases item with
  | table form inner span => exact ⟨form, span, rfl⟩
  | scalar => cases htable
  | array => cases htable
  | tables => cases htable

/-- **A document is refused** for an `item` that does not fit its `setting`, and that is told.

**Proof sketch.** The table that is refused is one of the two
(`PutsFields.exists_of_recordSetting_eq_error`), and in it an item that does not fit. -/
theorem Settings.exists_of_ofEntries_eq_error (h : entries.Distinct)
    (hmanifest : (entries.get? "manifest").all Item.isTable)
    (hinspect : (entries.get? "inspect").all Item.isTable) {fault : SettingFault}
    (hread : ofEntries entries = .error fault) :
    ∃ setting ∈ knownSettings, ∃ item, entries.at? setting.table setting.name = some item ∧
      item.fits setting.expected = false ∧ fault.mismatch = ⟨item.found, setting.expected⟩ := by
  obtain ⟨field, hfield, item, inner, hget, hinner, hfault⟩ :=
    putsFields_settings.exists_of_recordSetting_eq_error h hread
  simp only [settingsFields, List.mem_cons, List.not_mem_nil, or_false] at hfield
  rcases hfield with rfl | rfl
  · obtain ⟨form, span, rfl⟩ := Entries.exists_of_isTable hmanifest hget
    obtain ⟨name, expected, item, hknown, hitem, hfits, htold⟩ :=
      BootParameters.exists_of_ofItem_eq_error (h.tableAt _) form span hinner
    exact ⟨_, hknown, item, hitem, hfits, hfault.trans htold⟩
  · obtain ⟨form, span, rfl⟩ := Entries.exists_of_isTable hinspect hget
    obtain ⟨name, expected, item, hknown, hitem, hfits, htold⟩ :=
      InspectSettings.exists_of_ofItem_eq_error (h.tableAt _) form span hinner
    exact ⟨_, hknown, item, hitem, hfits, hfault.trans htold⟩

/-- Where `settings` are what a document asks for, its items fit them. -/
lemma Settings.Overlays.fits {settings : Settings} (h : settings.Overlays entries) :
    ∀ setting ∈ knownSettings, setting.Fits entries := by
  have hfits : ∀ {α : Type} {read : Item → Option α} {standard x : α} {item? : Option Item},
      IsSetting read standard item? x → ∀ item, item? = some item → (read item).isSome := by
    rintro α read standard x _ hsetting item rfl
    exact Option.isSome_iff_exists.2 ⟨x, hsetting⟩
  simp only [knownSettings, List.forall_mem_cons]
  exact ⟨hfits h.kernelMem, hfits h.setTotalMem, hfits h.mtdPrefix, hfits h.osmem,
    hfits h.fullImageName, by simp⟩

end Document

/-- **Settings lie over their standard values.** Where a document gives its tables as tables, in
whatever form and order and whatever else it holds, there are settings if and only if the items of
those that are named fit. Each then has the value of its own item, or its standard value where there
is none, and nothing else has a part in it. If some items do not fit, one of them is told, and there
are no settings.

**Proof sketch.** No table of the document has a name twice (`Entries.ofText?_distinct`), so at the
end of each of the three records stands what is read of the only item of each name
(`PutsFields.recordSetting_eq_ok_iff`), and nothing but such an item is refused
(`PutsFields.exists_of_recordSetting_eq_error`). -/
theorem Settings.ofText_partial {text : String} {entries : Entries}
    (hread : Entries.ofText? text = some entries)
    (hmanifest : (entries.get? "manifest").all Item.isTable)
    (hinspect : (entries.get? "inspect").all Item.isTable) :
    ((∃ settings, ofText text = .ok settings) ↔
      ∀ setting ∈ knownSettings, setting.Fits entries) ∧
    (∀ settings, ofText text = .ok settings ↔ settings.Overlays entries) ∧
    ((¬∀ setting ∈ knownSettings, setting.Fits entries) →
      ∃ setting ∈ knownSettings, ∃ item span,
        entries.at? setting.table setting.name = some item ∧ item.fits setting.expected = false ∧
        ofText text = .error (.mismatch
          (Diagnostic.ofSpan text span (Mismatch.ofType ⟨item.found, setting.expected⟩)))) := by
  have hdistinct := Entries.ofText?_distinct hread
  have hoverlays : ∀ settings, ofText text = .ok settings ↔ settings.Overlays entries := by
    intro settings
    rw [← ofEntries_eq_ok_iff hdistinct hmanifest hinspect, ofText, hread]
    cases hentries : ofEntries entries <;> simp [hentries, Except.mapError]
  have hfault : (¬∃ settings, ofText text = .ok settings) → ∃ setting ∈ knownSettings,
      ∃ item span, entries.at? setting.table setting.name = some item ∧
        item.fits setting.expected = false ∧ ofText text = .error (.mismatch
          (Diagnostic.ofSpan text span (Mismatch.ofType ⟨item.found, setting.expected⟩))) := by
    intro hnone
    cases hentries : ofEntries entries with
    | ok settings =>
      exact absurd ⟨settings, (hoverlays settings).2
        ((ofEntries_eq_ok_iff hdistinct hmanifest hinspect).1 hentries)⟩ hnone
    | error fault =>
      obtain ⟨setting, hknown, item, hitem, hfits, htold⟩ :=
        exists_of_ofEntries_eq_error hdistinct hmanifest hinspect hentries
      refine ⟨setting, hknown, item, fault.span.getD ⟨0, 0⟩, hitem, hfits, ?_⟩
      rw [ofText, hread, ← htold]
      simp only [hentries, Except.mapError]
  have hexists : (∃ settings, ofText text = .ok settings) ↔
      ∀ setting ∈ knownSettings, setting.Fits entries := by
    refine ⟨fun ⟨settings, hok⟩ => ((hoverlays settings).1 hok).fits, fun hall => ?_⟩
    by_contra hnone
    obtain ⟨setting, hknown, item, -, hitem, hfits, -⟩ := hfault hnone
    rw [hall setting hknown item hitem] at hfits
    cases hfits
  exact ⟨hexists, hoverlays, fun hnot => hfault (mt hexists.1 hnot)⟩

/-- Two settings under a header, with dotted keys and between braces, beside names that are not
known, and two settings with items of the wrong type. -/
theorem Settings.ofText_partial_forms :
    let header :=
      "other = [1]\n[inspect]\nname = 1\n[manifest]\nosmem = '64M'\nset_total_mem = false"
    let dotted := "manifest.set_total_mem = false\nmanifest.osmem = '64M'\n[manifest.more]"
    let braces := "manifest = \x7bx.y = 1, osmem = '64M', set_total_mem = false\x7d"
    let mistyped := "[manifest]\nosmem = 64\nmtd_prefix = ''\nset_total_mem = 'no'"
    (∀ text ∈ [header, dotted, braces], ∃ entries, Entries.ofText? text = some entries ∧
      (entries.get? "manifest").all Item.isTable ∧ (entries.get? "inspect").all Item.isTable ∧
      ofText text = .ok ⟨⟨"$\x7btotalmem\x7d", false, "hi_sfc:", "64M"⟩, ⟨"ff.img"⟩⟩) ∧
    ∃ entries, Entries.ofText? mistyped = some entries ∧
      (entries.get? "manifest").all Item.isTable ∧ (entries.get? "inspect").all Item.isTable ∧
      (¬∀ setting ∈ knownSettings, setting.Fits entries) ∧
      ∃ diagnostic, ofText mistyped = .error (.mismatch diagnostic) := by
  intro header dotted braces mistyped
  have hforms : ∀ text ∈ [header, dotted, braces], (Entries.ofText? text).any fun entries =>
      (entries.get? "manifest").all Item.isTable ∧ (entries.get? "inspect").all Item.isTable ∧
        Overlays ⟨⟨"$\x7btotalmem\x7d", false, "hi_sfc:", "64M"⟩, ⟨"ff.img"⟩⟩ entries := by
    decide +kernel
  have hmistyped : (Entries.ofText? mistyped).any fun entries =>
      (entries.get? "manifest").all Item.isTable ∧ (entries.get? "inspect").all Item.isTable ∧
        ¬∀ setting ∈ knownSettings, setting.Fits entries := by
    decide +kernel
  constructor
  · intro text htext
    obtain ⟨entries, hread, h⟩ := Option.any_eq_true _ _ |>.1 (hforms text htext)
    obtain ⟨hmanifest, hinspect, hoverlays⟩ := decide_eq_true_iff.1 h
    exact ⟨entries, hread, hmanifest, hinspect,
      ((ofText_partial hread hmanifest hinspect).2.1 _).2 hoverlays⟩
  · obtain ⟨entries, hread, h⟩ := Option.any_eq_true _ _ |>.1 hmistyped
    obtain ⟨hmanifest, hinspect, hnot⟩ := decide_eq_true_iff.1 h
    obtain ⟨setting, -, item, span, -, -, herror⟩ :=
      (ofText_partial hread hmanifest hinspect).2.2 hnot
    exact ⟨entries, hread, hmanifest, hinspect, hnot, _, herror⟩

end FirmwareBundle
