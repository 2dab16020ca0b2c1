import FirmwareBundle.Manifest.Decode
import FirmwareBundle.Proofs.Results
import Mathlib.Data.List.Nodup
import Mathlib.Tactic.Common
/-!
# Records read field by field

A record is read from the entries of a mapping, one after the other. An entry concerns the field
that its key names and no other, and a field can be filled once. So whether a record can be read is
decided for each field by itself, by the entries that name it, and so is what is read for it.

## Main definitions

* `FirmwareBundle.Yaml.Value.HasFields` — the entries of a mapping with distinct text keys.
* `FirmwareBundle.Decode.Field` — a field of a record.
* `FirmwareBundle.Decode.Field.Run` — what entries make of the field.
* `FirmwareBundle.Decode.Reads` — a way of reading entries goes by the fields of the record.

## Main results

* `FirmwareBundle.Decode.Reads.run_of_foldlM` — what is read for each field.
* `FirmwareBundle.Decode.Reads.exists_foldlM_iff` — the entries that can be read.
* `FirmwareBundle.Decode.Reads.exists_of_record_eq_ok` — what a record has for a field.
* `FirmwareBundle.Decode.reads_manifest`, `FirmwareBundle.Decode.reads_rom`,
  `FirmwareBundle.Decode.reads_device` — the records of headers go by their fields.
-/

namespace FirmwareBundle

open Yaml

/-! ## Mappings with text keys -/

/-- The `value` is a mapping whose keys are texts, those of `fields`, and no key stands twice. -/
structure Yaml.Value.HasFields (value : Value) (fields : List (String × Value)) : Prop where
  untagged_eq : value.untagged = .mapping (fields.map fun field => (.string field.1, field.2))
  distinct : (fields.map (·.1)).Nodup

/-- A mapping has a value for a `key` if it is one of its fields. -/
lemma Yaml.Value.HasFields.isSome_get?_iff {value : Value} {fields : List (String × Value)}
    (h : value.HasFields fields) {key : String} :
    (value.get? key).isSome ↔ key ∈ fields.map (·.1) := by
  rw [get?, h.untagged_eq]
  simp only [Option.isSome_map, List.find?_isSome, List.mem_map]
  constructor
  · rintro ⟨_, ⟨field, hfield, rfl⟩, hkey⟩
    exact ⟨field, hfield, by simpa [isString] using hkey⟩
  · rintro ⟨field, hfield, rfl⟩
    exact ⟨_, ⟨field, hfield, rfl⟩, by simp [isString]⟩

namespace Decode

variable {δ : Type}

/-- The `fields` of a mapping are read one after the other by `put`. -/
lemma record_of_hasFields {value : Value} {fields : List (String × Value)}
    (h : value.HasFields fields) (name : String) (put : δ → String → Value → Decoded δ)
    (empty : δ) :
    record name put empty value =
      fields.foldlM (fun draft field => put draft field.1 field.2) empty := by
  rw [record, h.untagged_eq]
  show (fields.map _).foldlM (entry put) empty = _
  rw [List.foldlM_map]
  rfl

/-- Entries that are passed over, those that `keep` does not hold of, can be left out. -/
lemma foldlM_filter {put : δ → String → Value → Decoded δ} (keep : String × Value → Bool)
    (h : ∀ draft (field : String × Value), keep field = false →
      put draft field.1 field.2 = .ok draft)
    (fields : List (String × Value)) (draft : δ) :
    (fields.filter keep).foldlM (fun draft field => put draft field.1 field.2) draft =
      fields.foldlM (fun draft field => put draft field.1 field.2) draft := by
  induction fields generalizing draft with
  | nil => rfl
  | cons field fields ih =>
    cases hkeep : keep field with
    | false =>
      rw [List.filter_cons_of_neg (by simp [hkeep]), List.foldlM_cons, h draft field hkeep]
      exact ih draft
    | true =>
      rw [List.filter_cons_of_pos hkeep, List.foldlM_cons, List.foldlM_cons]
      exact bind_congr fun next => ih next

/-! ## Fields -/

/-- A field of a draft: the keys that name it, how a value is read for it, and what the draft has
for it. -/
structure Field (δ : Type) where
  Content : Type
  names : List String
  read : Value → Decoded Content
  get : δ → Option Content

namespace Field

/-- What entries make of a field: it stays as it is at the keys of other fields, and it is filled at
its own if it is still open. -/
inductive Run (field : Field δ) :
    Option field.Content → List (String × Value) → Option field.Content → Prop
  | nil (old : Option field.Content) : field.Run old [] old
  | skip {old last : Option field.Content} {key : String} {value : Value}
      {entries : List (String × Value)} (other : key ∉ field.names)
      (rest : field.Run old entries last) : field.Run old ((key, value) :: entries) last
  | take {last : Option field.Content} {key : String} {value : Value} {content : field.Content}
      {entries : List (String × Value)} (own : key ∈ field.names)
      (read : field.read value = .ok content) (rest : field.Run (some content) entries last) :
      field.Run none ((key, value) :: entries) last

variable {field : Field δ} {old last : Option field.Content} {entries : List (String × Value)}

/-- Entries of other fields make nothing of `field`. -/
private lemma run_iff_of_forall_notMem (h : ∀ entry ∈ entries, entry.1 ∉ field.names) :
    field.Run old entries last ↔ last = old := by
  constructor
  · intro hrun
    induction hrun with
    | nil => rfl
    | skip _ _ ih => exact ih fun entry hentry => h entry (List.mem_cons_of_mem _ hentry)
    | take own => exact absurd own (h _ List.mem_cons_self)
  · rintro rfl
    induction entries with
    | nil => exact .nil _
    | cons entry entries ih =>
      rw [List.forall_mem_cons] at h
      exact .skip h.1 (ih h.2)

/-- **An open field is filled** from the only entry that names it, that of `key`, if its `value` can
be read.

**Proof sketch.** Induction on `entries`. If the first of them is that of `key`, the field is filled
from it, and the others do not name the field, since keys are distinct (`run_iff_of_forall_notMem`).
If it is not, it does not name the field by `honly`. -/
theorem run_none_iff_of_forall {key : String} {value : Value} (hkey : key ∈ field.names)
    (hdistinct : (entries.map (·.1)).Nodup) (hmem : (key, value) ∈ entries)
    (honly : ∀ entry ∈ entries, entry.1 ∈ field.names → entry.1 = key) :
    field.Run none entries last ↔
      ∃ content, field.read value = .ok content ∧ last = some content := by
  induction entries with
  | nil => cases hmem
  | cons entry entries ih =>
    rw [List.map_cons, List.nodup_cons] at hdistinct
    rw [List.forall_mem_cons] at honly
    rcases List.mem_cons.1 hmem with rfl | hmem
    · have hothers : ∀ entry ∈ entries, entry.1 ∉ field.names := by
        intro entry hentry hname
        exact hdistinct.1 (List.mem_map.2 ⟨entry, hentry, honly.2 entry hentry hname⟩)
      constructor
      · intro hrun
        cases hrun with
        | skip other => exact absurd hkey other
        | take _ read rest => exact ⟨_, read, (run_iff_of_forall_notMem hothers).1 rest⟩
      · rintro ⟨content, hread, rfl⟩
        exact .take hkey hread ((run_iff_of_forall_notMem hothers).2 rfl)
    · have hother : entry.1 ∉ field.names := by
        intro hname
        exact hdistinct.1 (List.mem_map.2 ⟨(key, value), hmem, (honly.1 hname).symm⟩)
      rw [← ih hdistinct.2 hmem honly.2]
      constructor
      · intro hrun
        cases hrun with
        | skip _ rest => exact rest
        | take own => exact absurd own hother
      · exact .skip hother

/-- The same of a `field` whose one name is `key`. -/
lemma run_none_iff_of_mem {key : String} {value : Value} (hnames : field.names = [key])
    (hdistinct : (entries.map (·.1)).Nodup) (hmem : (key, value) ∈ entries) :
    field.Run none entries last ↔
      ∃ content, field.read value = .ok content ∧ last = some content :=
  run_none_iff_of_forall (by simp [hnames]) hdistinct hmem (by simp [hnames])

/-- An open field can be filled if the value that stands for its `key` can be read; if none does, it
stays open.

**Proof sketch.** If a value stands there it is the only one (`Decode.Field.run_none_iff_of_mem`).
If none does, the entries make nothing of the field (`Decode.Field.run_iff_of_forall_notMem`). -/
lemma exists_run_none_iff {key : String} (hnames : field.names = [key])
    (hdistinct : (entries.map (·.1)).Nodup) :
    (∃ last, field.Run none entries last) ↔
      ∀ value, (key, value) ∈ entries → ∃ content, field.read value = .ok content := by
  constructor
  · rintro ⟨last, hrun⟩ value hmem
    obtain ⟨content, hread, -⟩ := (run_none_iff_of_mem hnames hdistinct hmem).1 hrun
    exact ⟨content, hread⟩
  · intro h
    by_cases hmem : ∃ value, (key, value) ∈ entries
    · obtain ⟨value, hmem⟩ := hmem
      obtain ⟨content, hread⟩ := h value hmem
      exact ⟨_, (run_none_iff_of_mem hnames hdistinct hmem).2 ⟨content, hread, rfl⟩⟩
    · refine ⟨none, (run_iff_of_forall_notMem fun entry hentry hkey => hmem ?_).2 rfl⟩
      rw [hnames, List.mem_singleton] at hkey
      exact ⟨entry.2, hkey ▸ hentry⟩

end Field

/-! ## Records -/

/-- The way `put` of putting an entry into a draft goes by `fields`: each field that the key names
must be open and the value must be read for it; then it is filled, and the other fields stay as they
are. -/
structure Reads (put : δ → String → Value → Decoded δ) (fields : List (Field δ)) : Prop where
  own : ∀ {draft draft' key value}, put draft key value = .ok draft' → ∀ field ∈ fields,
    key ∈ field.names → field.get draft = none ∧
      ∃ content, field.read value = .ok content ∧ field.get draft' = some content
  other : ∀ {draft draft' key value}, put draft key value = .ok draft' → ∀ field ∈ fields,
    key ∉ field.names → field.get draft' = field.get draft
  exists_put : ∀ {draft key value}, (∀ field ∈ fields, key ∈ field.names →
      field.get draft = none ∧ ∃ content, field.read value = .ok content) →
    ∃ draft', put draft key value = .ok draft'

namespace Reads

variable {put : δ → String → Value → Decoded δ} {fields : List (Field δ)} (h : Reads put fields)
  {entries : List (String × Value)}

include h

/-- **What is read for each field** is what the `entries` make of it, from what `draft` has for it
to what `last` has for it.

**Proof sketch.** Induction on `entries`. If the first entry names the field, this was open and is
filled by it (`Decode.Reads.own`); if not, it has what it had before (`Decode.Reads.other`). -/
theorem run_of_foldlM {draft last : δ} {field : Field δ} (hfield : field ∈ fields)
    (hread : entries.foldlM (fun draft entry => put draft entry.1 entry.2) draft = .ok last) :
    field.Run (field.get draft) entries (field.get last) := by
  induction entries generalizing draft with
  | nil =>
    obtain rfl := Except.ok.inj hread
    exact .nil _
  | cons entry entries ih =>
    rw [List.foldlM_cons] at hread
    cases hput : put draft entry.1 entry.2 with
    | error fault =>
      rw [hput] at hread
      cases hread
    | ok next =>
      rw [hput] at hread
      have hrest := ih hread
      by_cases hkey : entry.1 ∈ field.names
      · obtain ⟨hopen, content, hcontent, hnext⟩ := h.own hput field hfield hkey
        rw [hopen]
        rw [hnext] at hrest
        exact .take hkey hcontent hrest
      · rw [h.other hput field hfield hkey] at hrest
        exact .skip hkey hrest

/-- **Entries can be read** if and only if each of `fields` makes something of them.

**Proof sketch.** Induction on `entries`. The first entry can be put into the draft, because each
field that it names is open and its value is read for it. The fields are then as far as what they
make of the first entry. -/
theorem exists_foldlM_iff {draft : δ} :
    (∃ last, entries.foldlM (fun draft entry => put draft entry.1 entry.2) draft = .ok last) ↔
      ∀ field ∈ fields, ∃ last, field.Run (field.get draft) entries last := by
  constructor
  · rintro ⟨last, hread⟩ field hfield
    exact ⟨_, h.run_of_foldlM hfield hread⟩
  · intro hrun
    induction entries generalizing draft with
    | nil => exact ⟨draft, rfl⟩
    | cons entry entries ih =>
      obtain ⟨next, hput⟩ : ∃ next, put draft entry.1 entry.2 = .ok next := by
        refine h.exists_put fun field hfield hkey => ?_
        obtain ⟨last, hlast⟩ := hrun field hfield
        generalize hold : field.get draft = old at hlast
        cases hlast with
        | skip other => exact absurd hkey other
        | take _ read => exact ⟨rfl, _, read⟩
      rw [List.foldlM_cons, hput]
      refine ih fun field hfield => ?_
      obtain ⟨last, hlast⟩ := hrun field hfield
      refine ⟨last, ?_⟩
      generalize hold : field.get draft = old at hlast
      cases hlast with
      | skip other rest =>
        rw [h.other hput field hfield other, hold]
        exact rest
      | take own read rest =>
        obtain ⟨-, content, hcontent, hnext⟩ := h.own hput field hfield own
        obtain rfl := Except.ok.inj (hcontent.symm.trans read)
        rw [hnext]
        exact rest

/-- **What a record has for a field** is what is read of the entry that names it, that of `key`. -/
theorem exists_of_record_eq_ok {field : Field δ} (hfield : field ∈ fields) {key : String}
    (hnames : field.names = [key]) {empty last : δ} (hopen : field.get empty = none) {name : String}
    {header : Value} (hfields : header.HasFields entries) {value : Value}
    (hmem : (key, value) ∈ entries) (hread : record name put empty header = .ok last) :
    ∃ content, field.read value = .ok content ∧ field.get last = some content := by
  rw [record_of_hasFields hfields] at hread
  have hrun := h.run_of_foldlM hfield hread
  rw [hopen] at hrun
  exact (Field.run_none_iff_of_mem hnames hfields.distinct hmem).1 hrun

end Reads

/-! ## Records of headers -/

/-- A field is filled if it is open, `old` being `none`, and its value is read. -/
lemma fill_eq_ok_iff {α : Type} {name : String} {old filled : Option α} {read : Decoded α} :
    fill name old read = .ok filled ↔
      old = none ∧ ∃ content, read = .ok content ∧ filled = some content := by
  cases old with
  | some content => simp [fill]
  | none => cases read <;> simp [fill, Except.map, eq_comm]

/-- The same if the field is one of several, and `f` puts it among the others. -/
lemma fill_bind_eq_ok_iff {α : Type} {name : String} {old : Option α} {read : Decoded α}
    {f : Option α → δ} {filled : δ} :
    (fill name old read >>= fun content => pure (f content)) = .ok filled ↔
      old = none ∧ ∃ content, read = .ok content ∧ filled = f (some content) := by
  rw [bind_eq_ok_iff]
  constructor
  · rintro ⟨_, hfill, h⟩
    obtain ⟨hopen, content, hread, rfl⟩ := fill_eq_ok_iff.1 hfill
    exact ⟨hopen, content, hread, (Except.ok.inj h).symm⟩
  · rintro ⟨hopen, content, hread, rfl⟩
    exact ⟨_, fill_eq_ok_iff.2 ⟨hopen, content, hread, rfl⟩, rfl⟩

/-- A field can be filled if it is open and its value is read. -/
lemma exists_fill_bind {α : Type} {name : String} {old : Option α} {read : Decoded α}
    {f : Option α → δ} (h : old = none ∧ ∃ content, read = .ok content) :
    ∃ filled, (fill name old read >>= fun content => pure (f content)) = .ok filled := by
  obtain ⟨hopen, content, hread⟩ := h
  exact ⟨_, fill_bind_eq_ok_iff.2 ⟨hopen, content, hread, rfl⟩⟩

/-- The field of a manifest for its table. -/
def tableField : Field ManifestDraft :=
  ⟨List PartitionSpec, ["partitions"], table, (·.partitions)⟩

/-- The fields of a manifest. -/
def manifestFields : List (Field ManifestDraft) :=
  [⟨String, ["kernelMem"], text, (·.kernelMem)⟩,
    ⟨Bool, ["setTotalMem"], boolean, (·.setTotalMem)⟩,
    ⟨String, ["mtdPrefix"], text, (·.mtdPrefix)⟩,
    ⟨String, ["osmem"], text, (·.osmem)⟩,
    ⟨Option String, ["additionalCmdline"], optional text, (·.additionalCmdline)⟩,
    ⟨Option (List String), ["skip"], optional (items text), (·.skip)⟩,
    tableField]

/-- The field `tableField` for the table is one of a manifest. -/
lemma tableField_mem : tableField ∈ manifestFields := by
  simp [manifestFields]

/-- **A manifest is read field by field**, by `manifestFields`.

**Proof sketch.** There are seven names, and an entry of each of them fills its own field
(`fill_bind_eq_ok_iff`) and no other. An entry of another name is passed over. -/
theorem reads_manifest : Reads ManifestDraft.put manifestFields where
  own := by
    intro draft draft' key value hput field hfield hkey
    simp only [manifestFields, List.mem_cons, List.not_mem_nil, or_false] at hfield
    rcases hfield with rfl | rfl | rfl | rfl | rfl | rfl | rfl
    all_goals
      obtain rfl := List.mem_singleton.1 hkey
      obtain ⟨hopen, content, hread, rfl⟩ := fill_bind_eq_ok_iff.1 hput
      exact ⟨hopen, content, hread, rfl⟩
  other := by
    intro draft draft' key value hput field hfield hkey
    simp only [manifestFields, List.mem_cons, List.not_mem_nil, or_false] at hfield
    unfold ManifestDraft.put at hput
    split at hput
    case h_8 =>
      obtain rfl := Except.ok.inj hput
      rfl
    -- One field is filled: it is not the field in question, whose name is not the key.
    all_goals
      obtain ⟨-, content, -, rfl⟩ := fill_bind_eq_ok_iff.1 hput
      rcases hfield with rfl | rfl | rfl | rfl | rfl | rfl | rfl <;>
        first | rfl | exact absurd (List.mem_singleton_self _) hkey
  exists_put := by
    intro draft key value hopen
    simp only [manifestFields, List.forall_mem_cons] at hopen
    obtain ⟨hkernelMem, hsetTotalMem, hmtdPrefix, hosmem, hcmdline, hskip, hpartitions, -⟩ := hopen
    unfold ManifestDraft.put
    split
    · exact exists_fill_bind (hkernelMem (List.mem_singleton_self _))
    · exact exists_fill_bind (hsetTotalMem (List.mem_singleton_self _))
    · exact exists_fill_bind (hmtdPrefix (List.mem_singleton_self _))
    · exact exists_fill_bind (hosmem (List.mem_singleton_self _))
    · exact exists_fill_bind (hcmdline (List.mem_singleton_self _))
    · exact exists_fill_bind (hskip (List.mem_singleton_self _))
    · exact exists_fill_bind (hpartitions (List.mem_singleton_self _))
    · exact ⟨draft, rfl⟩

/-- The only field of a record, which is named `name` and read by `read`. -/
def soleField {α : Type} (name : String) (read : Value → Decoded α) : Field (Option α) :=
  ⟨α, [name], read, id⟩

/-- **A record with one field** is read by it, if `put` fills it at `name` and passes over the
rest. -/
theorem reads_soleField {α : Type} {name : String} {read : Value → Decoded α}
    {put : Option α → String → Value → Decoded (Option α)}
    (hput : ∀ draft key value,
      put draft key value = if key = name then fill name draft (read value) else .ok draft) :
    Reads put [soleField name read] where
  own := by
    intro draft draft' key value h field hfield hkey
    obtain rfl := List.mem_singleton.1 hfield
    rw [hput, if_pos (List.mem_singleton.1 hkey)] at h
    exact fill_eq_ok_iff.1 h
  other := by
    intro draft draft' key value h field hfield hkey
    obtain rfl := List.mem_singleton.1 hfield
    rw [hput, if_neg (by simpa [soleField] using hkey)] at h
    exact (Except.ok.inj h).symm
  exists_put := by
    intro draft key value hopen
    rw [List.forall_mem_singleton] at hopen
    rw [hput]
    split
    case isTrue hkey =>
      obtain ⟨hopen, content, hread⟩ := hopen (List.mem_singleton.2 hkey)
      exact ⟨some content, fill_eq_ok_iff.2 ⟨hopen, content, hread, rfl⟩⟩
    case isFalse => exact ⟨draft, rfl⟩

/-- A memory chip is read by its only field. -/
theorem reads_rom : Reads putPartitions [soleField "partitions" table] :=
  reads_soleField fun _ _ _ => rfl

/-- A device descriptor is read by its only field. -/
theorem reads_device : Reads putRom [soleField "rom" (items romDescriptor)] :=
  reads_soleField fun _ _ _ => rfl

end Decode

end FirmwareBundle
