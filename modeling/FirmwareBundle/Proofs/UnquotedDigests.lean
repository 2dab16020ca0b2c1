import FirmwareBundle.Proofs.HeaderSpelling
import FirmwareBundle.Proofs.PlainDigest
import FirmwareBundle.Proofs.RecordGrammar
/-!
# Headers with digests without quotes

A header in whose tables digests stand without quotes is read unless one of them spells a fractional
number. Then an entry asks for the digest that stands in it, but for a binary one, which is taken
for the digits of its number. So a payload whose digest was written down without quotes is valid
behind such a header, unless the digest is a binary one.

## Main definitions

* `FirmwareBundle.Yaml.Value.IsSha1` — what can stand for a digest, with quotes or without.
* `FirmwareBundle.Yaml.Value.HasTables` — a header has tables with certain entries.
* `FirmwareBundle.ManifestDocument.tables` — the tables of a header that was read.
* `FirmwareBundle.WrittenSpec.ReadAs` — what is read of an entry.

## Main results

* `FirmwareBundle.Decode.succeeds_spec` — which entries are read, and what is read of them.
* `FirmwareBundle.ManifestDocument.succeeds_ofValue` — the same of headers.
* `FirmwareBundle.ManifestDocument.ofText_unquoted` — which headers are read, which digests their
  entries ask for, and which payloads are valid.
* `FirmwareBundle.not_forall_ofText_unquoted` — not every digest can be written without quotes.
-/

namespace FirmwareBundle

open Yaml

/-! ## Tables as they are written -/

/-- An entry of a table as it is written: its `name`, the length of its payload, and the digest that
stands in it without quotes, if any. -/
structure WrittenSpec where
  name : String
  payloadSize : UInt64
  unquoted : Option String

/-- The value can stand for a digest: one without quotes, which has the meaning of a plain scalar,
or null, a text or a number. -/
inductive Yaml.Value.IsSha1 : Value → Option String → Prop
  | unquoted {value : Value} {d : String} (isDigest : IsDigest d)
      (meaning : ofScalar? none d true = some value) : IsSha1 value (some d)
  | null : IsSha1 .null none
  | string (text : String) : IsSha1 (.string text) none
  | integer (n : Nat) : IsSha1 (.integer n) none

/-- The `fields` say what is `written` in an entry: a name, a length under one of its two names, and
perhaps a digest and the size of a slot. Other keys have any values. -/
structure WrittenSpec.In (written : WrittenSpec) (fields : List (String × Value)) : Prop where
  name : ∃ value, ("name", value) ∈ fields ∧ value.untagged = .string written.name
  payloadSize : ∃ key value, key ∈ ["payloadSize", "size"] ∧ (key, value) ∈ fields ∧
    value.untagged = .integer written.payloadSize.toNat
  once : ¬("payloadSize" ∈ fields.map (·.1) ∧ "size" ∈ fields.map (·.1))
  sha1 : (∃ value, ("sha1", value) ∈ fields ∧ value.IsSha1 written.unquoted) ∨
    "sha1" ∉ fields.map (·.1) ∧ written.unquoted = none
  partitionSize : ∀ value, ("partitionSize", value) ∈ fields →
    value = .null ∨ ∃ size : UInt64, value.untagged = .integer size.toNat

/-- The digest `d` without quotes is a digest. -/
private lemma WrittenSpec.In.isDigest {written : WrittenSpec} {fields : List (String × Value)}
    (h : written.In fields) {d : String} (hd : written.unquoted = some d) : IsDigest d := by
  rcases h.sha1 with ⟨value, -, hvalue⟩ | ⟨-, hnone⟩
  · rw [hd] at hvalue
    cases hvalue with
    | unquoted isDigest => exact isDigest
  · rw [hd] at hnone
    cases hnone

namespace Yaml.Value

/-- The collection `value` has these `items`; null has none. -/
def HasItems (value : Value) (items : List Value) : Prop :=
  value.untagged = .sequence items ∨ value.untagged = .null ∧ items = []

/-- The `table` has these `entries`. -/
def IsTable (table : Value) (entries : List WrittenSpec) : Prop :=
  ∃ items, table.HasItems items ∧
    List.Forall₂ (fun item written => ∃ fields, item.HasFields fields ∧ written.In fields)
      items entries

/-- The memory `chip` has these `entries` in its table; one without a table has none. -/
def IsChip (chip : Value) (entries : List WrittenSpec) : Prop :=
  ∃ fields, chip.HasFields fields ∧
    ((∃ table, ("partitions", table) ∈ fields ∧ table.IsTable entries) ∨
      "partitions" ∉ fields.map (·.1) ∧ entries = [])

/-- A header has tables with these entries: a manifest has one, and a device descriptor has one for
each of its memory chips. -/
inductive HasTables (header : Value) : ManifestShape → List (List WrittenSpec) → Prop
  | bundle {fields : List (String × Value)} {table : Value} {entries : List WrittenSpec}
      (hasFields : header.HasFields fields) (table_mem : ("partitions", table) ∈ fields)
      (allowed : ∀ field ∈ fields, Manifest.Allows field.1 field.2)
      (isTable : table.IsTable entries) : HasTables header .bundle [entries]
  | deviceDescriptor {fields : List (String × Value)} {rom : Value} {chips : List Value}
      {tables : List (List WrittenSpec)} (hasFields : header.HasFields fields)
      (noTable : "partitions" ∉ fields.map (·.1)) (rom_mem : ("rom", rom) ∈ fields)
      (hasItems : rom.HasItems chips) (isChip : List.Forall₂ IsChip chips tables)
      (tables_ne_nil : tables ≠ []) : HasTables header .deviceDescriptor tables

end Yaml.Value

/-! ## What is read of them -/

/-- The tables of a header: that of a manifest, or those of all memory chips. -/
def ManifestDocument.tables : ManifestDocument → List (List PartitionSpec)
  | .bundle manifest => [manifest.partitions]
  | .device descriptor => descriptor.rom.map (·.partitions)

/-- The entry `written` can be read: the digest in it does not spell a fractional number. -/
def WrittenSpec.Readable (written : WrittenSpec) : Prop :=
  ∀ d, written.unquoted = some d → ¬IsFloatDigest d

/-- The entry `written` is read as `spec`. -/
structure WrittenSpec.ReadAs (written : WrittenSpec) (spec : PartitionSpec) : Prop where
  name : spec.name = written.name
  payloadSize : spec.payloadSize = written.payloadSize
  isDigest : ∀ d, written.unquoted = some d → IsDigest d
  sha1 : ∀ d, written.unquoted = some d → spec.sha1 = some (unquotedDigest d)

/-- The names that are read, those of `specs`, are those that are written. -/
lemma WrittenSpec.map_name_eq {entries : List WrittenSpec} {specs : List PartitionSpec}
    (h : List.Forall₂ ReadAs entries specs) : specs.map (·.name) = entries.map (·.name) := by
  induction h with
  | nil => rfl
  | cons hspec _ ih => rw [List.map_cons, List.map_cons, hspec.name, ih]

namespace Decode

/-- The field of an entry for its name. -/
def nameField : Field SpecDraft :=
  ⟨String, ["name"], text, (·.name)⟩

/-- The field of an entry for its digest. -/
def sha1Field : Field SpecDraft :=
  ⟨Option String, ["sha1"], digest, (·.sha1)⟩

/-- The field of an entry for the size of its slot. -/
def slotField : Field SpecDraft :=
  ⟨Option UInt64, ["partitionSize"], optional unsigned, (·.partitionSize)⟩

/-- The fields of an entry are the four `nameField`, `sizeField`, `sha1Field` and `slotField`. -/
lemma specFields_eq : specFields = [nameField, sizeField, sha1Field, slotField] := rfl

/-- The name, the length and the digest are fields of an entry. -/
private lemma mem_specFields :
    nameField ∈ specFields ∧ sizeField ∈ specFields ∧ sha1Field ∈ specFields := by
  simp [specFields_eq]

/-- A number `size` of 64 bits is a length. -/
lemma unsigned_of_untagged_eq {value : Value} {size : UInt64}
    (h : value.untagged = .integer size.toNat) : unsigned value = .ok size := by
  rw [unsigned, h]
  simp

/-- **What stands for a digest** can be read unless it spells a fractional number, and if it is
`unquoted`, then `unquotedDigest` is what is read of it (`Decode.digest_ofPlain?`). -/
theorem succeeds_digest {value : Value} {unquoted : Option String} (h : value.IsSha1 unquoted) :
    Succeeds (digest value) (∀ d, unquoted = some d → ¬IsFloatDigest d)
      (fun sha1 => ∀ d, unquoted = some d → sha1 = some (unquotedDigest d)) := by
  cases h with
  | @unquoted _ d hd hmeaning =>
    obtain ⟨value', hvalue', hfloat, hread⟩ := digest_ofPlain? hd
    obtain rfl : value' = value := Option.some.inj (hvalue'.symm.trans hmeaning)
    by_cases h : IsFloatDigest d
    · rw [hfloat h]
      exact ⟨by simp [h], by simp⟩
    · rw [hread h]
      exact ⟨by simp [h], by simp⟩
  | null => exact ⟨by simp [digest], by simp⟩
  | string text => exact ⟨by simp [digest], by simp⟩
  | integer n =>
    have hn : ¬(n : Int) < 0 := by omega
    exact ⟨by simp [digest, hn], by simp⟩

section Entry

variable {written : WrittenSpec} {item : Value} {fields : List (String × Value)}
  (hfields : item.HasFields fields) (h : written.In fields)

include hfields h

/-- The length of an entry is what is read under whichever of the two names it has.

**Proof sketch.** It has one of them only (`WrittenSpec.In.once`), so this is the only entry that
names the field (`Decode.Field.run_none_iff_of_forall`), and its value is a number of 64 bits. -/
lemma run_sizeField_iff {last : Option sizeField.Content} :
    sizeField.Run none fields last ↔ last = some written.payloadSize := by
  obtain ⟨key, value, hkey, hmem, hvalue⟩ := h.payloadSize
  have honly : ∀ field ∈ fields, field.1 ∈ sizeField.names → field.1 = key := by
    intro field hfield hname
    have hkeys : key ∈ fields.map (·.1) ∧ field.1 ∈ fields.map (·.1) :=
      ⟨List.mem_map_of_mem hmem, List.mem_map_of_mem hfield⟩
    rcases List.mem_pair.1 hkey with rfl | rfl <;> rcases List.mem_pair.1 hname with hf | hf
    · exact hf
    · exact absurd (hf ▸ hkeys) h.once
    · exact absurd (hf ▸ hkeys).symm h.once
    · exact hf
  refine (Field.run_none_iff_of_forall hkey hfields.distinct hmem honly).trans ?_
  have hread : sizeField.read value = .ok written.payloadSize := unsigned_of_untagged_eq hvalue
  constructor
  · rintro ⟨content, hcontent, rfl⟩
    exact congrArg some (Except.ok.inj (hread.symm.trans hcontent)).symm
  · rintro rfl
    exact ⟨_, hread, rfl⟩

/-- The field of a digest can be filled unless what stands there spells a fractional number. If
something stands there, `Decode.succeeds_digest` says whether it is read; if nothing does, the field
stays open. -/
lemma exists_run_sha1_iff :
    (∃ last, sha1Field.Run none fields last) ↔ written.Readable := by
  rcases h.sha1 with ⟨value, hmem, hvalue⟩ | ⟨hnone, hunquoted⟩
  · rw [WrittenSpec.Readable, ← (succeeds_digest hvalue).exists_iff]
    have hrun : ∀ last, sha1Field.Run none fields last ↔
        ∃ sha1, sha1Field.read value = .ok sha1 ∧ last = some sha1 :=
      fun _ => Field.run_none_iff_of_mem rfl hfields.distinct hmem
    constructor
    · rintro ⟨last, hlast⟩
      obtain ⟨sha1, hread, -⟩ := (hrun last).1 hlast
      exact ⟨sha1, hread⟩
    · rintro ⟨sha1, hread⟩
      exact ⟨_, (hrun _).2 ⟨sha1, hread, rfl⟩⟩
  · rw [WrittenSpec.Readable, hunquoted, Field.exists_run_none_iff rfl hfields.distinct]
    constructor
    · rintro - d hd
      cases hd
    · rintro - value hmem
      exact absurd (List.mem_map_of_mem hmem) hnone

/-- The entries of a mapping can be read unless the digest among them spells a fractional number:
each of the other three fields makes something of them (`Decode.Reads.exists_foldlM_iff`). -/
lemma exists_record_spec_iff :
    (∃ draft, record "PartitionSpec" SpecDraft.put {} item = .ok draft) ↔ written.Readable := by
  rw [record_of_hasFields hfields, reads_spec.exists_foldlM_iff, ← exists_run_sha1_iff hfields h,
    specFields_eq]
  constructor
  · intro hruns
    exact hruns sha1Field (by simp)
  · intro hsha1
    have hname : ∃ last, nameField.Run none fields last := by
      obtain ⟨value, hmem, hvalue⟩ := h.name
      have hread : text value = .ok written.name := by
        rw [text, textAs, hvalue]
      exact ⟨_, (Field.run_none_iff_of_mem rfl hfields.distinct hmem).2 ⟨_, hread, rfl⟩⟩
    have hslot : ∃ last, slotField.Run none fields last := by
      refine (Field.exists_run_none_iff rfl hfields.distinct).2 fun value hmem => ?_
      refine exists_optional_eq_ok_iff.2 ((h.partitionSize value hmem).imp_right ?_)
      rintro ⟨size, hsize⟩
      exact ⟨size, unsigned_of_untagged_eq hsize⟩
    simp only [List.forall_mem_cons]
    exact ⟨hname, ⟨_, (run_sizeField_iff hfields h).2 rfl⟩, hsha1, hslot, by simp⟩

/-- **An entry is read** unless the digest in it spells a fractional number.

**Proof sketch.** The entry is read field by field: the name, the length under whichever of its two
names, and the size of a slot can be read, so the digest decides (`Decode.exists_record_spec_iff`).
What it has for each field is what is read there (`Decode.Reads.exists_of_record_eq_ok`). -/
theorem succeeds_spec : Succeeds (spec item) written.Readable written.ReadAs := by
  have hfinish : ∀ {draft}, record "PartitionSpec" SpecDraft.put {} item = .ok draft →
      draft.finish =
        .ok ⟨written.name, written.payloadSize, draft.sha1.join, draft.partitionSize.join⟩ := by
    intro draft hdraft
    have hname : draft.name = some written.name := by
      obtain ⟨value, hmem, hvalue⟩ := h.name
      obtain ⟨name, hname, hdraft⟩ : ∃ name, text value = .ok name ∧ draft.name = some name :=
        reads_spec.exists_of_record_eq_ok mem_specFields.1 rfl rfl hfields hmem hdraft
      rw [text, textAs, hvalue] at hname
      obtain rfl := Except.ok.inj hname
      exact hdraft
    have hsize : draft.payloadSize = some written.payloadSize := by
      rw [record_of_hasFields hfields] at hdraft
      exact (run_sizeField_iff hfields h).1 (reads_spec.run_of_foldlM mem_specFields.2.1 hdraft)
    rw [SpecDraft.finish, hname, hsize]
    rfl
  refine ⟨?_, ?_⟩
  · rw [← exists_record_spec_iff hfields h, spec]
    simp only [bind_eq_ok_iff]
    constructor
    · rintro ⟨spec, draft, hdraft, -⟩
      exact ⟨draft, hdraft⟩
    · rintro ⟨draft, hdraft⟩
      exact ⟨_, draft, hdraft, hfinish hdraft⟩
  · intro result hspec
    obtain ⟨draft, hdraft, hresult⟩ := bind_eq_ok_iff.1 hspec
    obtain rfl := Except.ok.inj ((hfinish hdraft).symm.trans hresult)
    refine ⟨rfl, rfl, fun d hd => h.isDigest hd, fun d hd => ?_⟩
    rcases h.sha1 with ⟨value, hmem, hvalue⟩ | ⟨-, hunquoted⟩
    · obtain ⟨sha1, hsha1, hdraft⟩ : ∃ sha1, digest value = .ok sha1 ∧ draft.sha1 = some sha1 :=
        reads_spec.exists_of_record_eq_ok mem_specFields.2.2 rfl rfl hfields hmem hdraft
      rw [hdraft, (succeeds_digest hvalue).kind_of_eq_ok hsha1 d hd]
      rfl
    · rw [hunquoted] at hd
      cases hd

end Entry

/-! ## Tables and memory chips -/

/-- Items, the `values` in `value`, are read one by one. -/
private lemma items_of_hasItems {α : Type} {read : Value → Decoded α} {value : Value}
    {values : List Value} (h : value.HasItems values) : items read value = values.mapM read := by
  rcases h with h | ⟨h, rfl⟩ <;> rw [items, h]
  rfl

/-- **A table is read** unless a digest in one of its `entries` spells a fractional number. -/
theorem succeeds_table {value : Value} {entries : List WrittenSpec} (h : value.IsTable entries) :
    Succeeds (table value) (∀ written ∈ entries, written.Readable)
      (List.Forall₂ WrittenSpec.ReadAs entries) := by
  obtain ⟨values, hitems, hentries⟩ := h
  rw [table, items_of_hasItems hitems]
  refine .mapM (hentries.imp ?_)
  rintro item written ⟨fields, hfields, hwritten⟩
  exact succeeds_spec hfields hwritten

/-- A memory chip without a table has no partitions. -/
private lemma romDescriptor_of_notMem {value : Value} {fields : List (String × Value)}
    (hfields : value.HasFields fields) (hnone : "partitions" ∉ fields.map (·.1)) :
    romDescriptor value = .ok ⟨[]⟩ := by
  have hskip : ∀ draft (field : String × Value), decide (field.1 = "partitions") = false →
      putPartitions draft field.1 field.2 = .ok draft := by
    intro draft field hkey
    rw [putPartitions, if_neg (by simpa using hkey)]
  have hfilter : fields.filter (fun field => decide (field.1 = "partitions")) = [] := by
    refine List.filter_eq_nil_iff.2 fun field hfield hkey => hnone ?_
    exact List.mem_map.2 ⟨field, hfield, by simpa using hkey⟩
  rw [romDescriptor, record_of_hasFields hfields, ← foldlM_filter _ hskip, hfilter]
  rfl

/-- **A memory chip is read** unless a digest in one of the `entries` of its table spells a
fractional number. -/
theorem succeeds_romDescriptor {value : Value} {entries : List WrittenSpec}
    (h : value.IsChip entries) :
    Succeeds (romDescriptor value) (∀ written ∈ entries, written.Readable)
      (fun chip => List.Forall₂ WrittenSpec.ReadAs entries chip.partitions) := by
  obtain ⟨fields, hfields, ⟨entriesValue, hmem, htable⟩ | ⟨hnone, rfl⟩⟩ := h
  · exact (succeeds_table htable).of_eq_ok_iff (fun specs => ⟨⟨specs⟩, rfl⟩)
      fun chip => romDescriptor_eq_ok_iff hfields hmem
  · rw [romDescriptor_of_notMem hfields hnone]
    refine ⟨by simp, ?_⟩
    rintro chip h
    obtain rfl := Except.ok.inj h
    exact .nil

end Decode

/-! ## Headers -/

namespace ManifestDocument

/-- The table of a `document` is the first of its tables. -/
private lemma head?_tables {document : ManifestDocument} {specs : List PartitionSpec}
    {others : List (List PartitionSpec)} (h : document.tables = specs :: others) :
    document.partitions = specs := by
  cases document with
  | bundle manifest => exact (List.cons.inj h).1
  | device descriptor =>
    rw [tables] at h
    rw [partitions]
    cases hrom : descriptor.rom with
    | nil => simp [hrom] at h
    | cons chip chips => simpa [hrom] using (List.cons.inj (hrom ▸ h)).1

/-- **A header is read** unless a digest in one of its `tables` spells a fractional number.

**Proof sketch.** A manifest is read if its table is (`Decode.exists_manifest_eq_ok`), and its table
is then what is read of it. A device descriptor is read if all its memory chips are
(`Decode.succeeds_romDescriptor`), and there is one at least. -/
theorem succeeds_ofValue {header : Value} {shape : ManifestShape}
    {tables : List (List WrittenSpec)} (h : header.HasTables shape tables) :
    Succeeds (ofValue header) (∀ entries ∈ tables, ∀ written ∈ entries, written.Readable)
      (fun document => document.shape = shape ∧
        List.Forall₂ (List.Forall₂ WrittenSpec.ReadAs) tables document.tables) := by
  cases h with
  | @bundle fields table entries hfields hmem hallowed htable =>
    rw [ofValue_of_mem hfields (List.mem_map_of_mem hmem)]
    have hread := Decode.succeeds_table htable
    have hmanifest : Succeeds (Decode.manifest header) (∀ written ∈ entries, written.Readable)
        (fun m => List.Forall₂ WrittenSpec.ReadAs entries m.partitions) := by
      refine ⟨?_, fun hm => ?_⟩
      · rw [← hread.exists_iff]
        constructor
        · rintro ⟨m, hm⟩
          exact ⟨_, Decode.table_eq_of_manifest_eq_ok hfields hmem hm⟩
        · rintro ⟨specs, hspecs⟩
          exact Decode.exists_manifest_eq_ok hfields hmem hallowed hspecs
      · exact hread.kind_of_eq_ok (Decode.table_eq_of_manifest_eq_ok hfields hmem hm)
    rw [List.forall_mem_singleton]
    exact hmanifest.map _ fun m hm => ⟨rfl, .cons hm .nil⟩
  | @deviceDescriptor fields rom chips tables hfields hnone hmem hitems hchips hne =>
    rw [ofValue_of_notMem hfields hnone (List.mem_map_of_mem hmem)]
    have hrom : Succeeds (Decode.items Decode.romDescriptor rom)
        (∀ entries ∈ tables, ∀ written ∈ entries, written.Readable)
        (List.Forall₂ (fun entries chip =>
          List.Forall₂ WrittenSpec.ReadAs entries chip.partitions) tables) := by
      rw [Decode.items_of_hasItems hitems]
      exact .mapM (hchips.imp fun _ _ hchip => Decode.succeeds_romDescriptor hchip)
    have hdescriptor := hrom.of_eq_ok_iff (fun chips => ⟨⟨chips⟩, rfl⟩)
      fun descriptor => Decode.deviceDescriptor_eq_ok_iff hfields hmem
    have hdocument : (Decode.deviceDescriptor header >>= fun descriptor =>
        if descriptor.rom.isEmpty then .error .noRom else pure (.device descriptor)) =
          (Decode.deviceDescriptor header).map device := by
      cases hread : Decode.deviceDescriptor header with
      | error fault => rfl
      | ok descriptor =>
        have hlength := (hdescriptor.kind_of_eq_ok hread).length_eq
        have hrom : descriptor.rom ≠ [] := by
          intro hnil
          rw [hnil] at hlength
          exact hne (List.eq_nil_of_length_eq_zero hlength)
        exact if_neg (by simpa using hrom)
    rw [hdocument]
    exact hdescriptor.map _ fun descriptor hread =>
      ⟨rfl, List.forall₂_map_right_iff.2 hread⟩

/-- **The text of a header is read** unless a digest in one of its tables spells a fractional
number, if the names in the `first` of them are distinct.

**Proof sketch.** The value of the text is read so (`ManifestDocument.succeeds_ofValue`). The names
that are read are those that are written (`WrittenSpec.map_name_eq`), so the check of the names lets
the document pass. -/
theorem succeeds_ofText {text : ByteArray} {header : Value} {shape : ManifestShape}
    {first : List WrittenSpec} {others : List (List WrittenSpec)}
    (hvalue : Value.ofText? text = some header) (h : header.HasTables shape (first :: others))
    (hdistinct : (first.map (·.name)).Nodup) :
    Succeeds (ofText text)
      (∀ entries ∈ first :: others, ∀ written ∈ entries, written.Readable)
      (fun document => document.shape = shape ∧
        List.Forall₂ (List.Forall₂ WrittenSpec.ReadAs) (first :: others) document.tables) := by
  have hread := succeeds_ofValue h
  have hsame : ofText text = ofValue header := by
    rw [ofText, hvalue]
    show (ofValue header).bind requireDistinct = _
    cases hdocument : ofValue header with
    | error fault => rfl
    | ok document =>
      obtain ⟨-, htables⟩ := hread.kind_of_eq_ok hdocument
      refine requireDistinct_eq_ok_iff.2 ⟨?_, rfl⟩
      obtain ⟨specs, rest, hspecs, -, hcons⟩ := List.forall₂_cons_left_iff.1 htables
      rw [head?_tables hcons, WrittenSpec.map_name_eq hspecs]
      exact hdistinct
  rw [hsame]
  exact hread

end ManifestDocument

/-! ## Payloads -/

/-- The outcome for a `payload` whose digest stands in the entry `written` without quotes: it is
valid, unless the digest is binary and was taken for another one. -/
def WrittenSpec.outcome (written : WrittenSpec) (payload : ByteArray) : Outcome :=
  let digest := shortDigest payload
  if binaryNumber? digest = none then .ok written.name payload.size digest
  else .digestMismatch written.name (unquotedDigest digest) digest

section Payloads

variable {written : WrittenSpec} {spec : PartitionSpec} (h : written.ReadAs spec)

include h

/-- An entry with a digest `d` without quotes asks for what is read of it. -/
lemma WrittenSpec.ReadAs.expectedDigest_eq {d : String} (hunquoted : written.unquoted = some d) :
    spec.expectedDigest = some (unquotedDigest d) :=
  PartitionSpec.expectedDigest_eq_some_iff.2
    ⟨h.sha1 d hunquoted, unquotedDigest_ne_empty (h.isDigest d hunquoted)⟩

/-- A `payload` with the length and the digest of an entry is valid unless the digest is binary. -/
lemma WrittenSpec.ReadAs.classify_eq {payload : ByteArray}
    (hsize : payload.size = written.payloadSize.toNat)
    (hunquoted : written.unquoted = some (shortDigest payload)) :
    Outcome.classify spec payload = written.outcome payload := by
  have hexpected := h.expectedDigest_eq hunquoted
  have hspec : ¬payload.size ≠ spec.payloadSize.toNat := by
    rw [h.payloadSize, hsize, ne_eq, not_not]
  rw [Outcome.classify, if_neg hspec, WrittenSpec.outcome]
  simp only [hexpected, unquotedDigest_eq_self_iff, h.name]

end Payloads

/-- **Headers with digests without quotes**, of either `shape`, with distinct names and readable
lengths. Such a header is read unless one of these digests spells a fractional number. Each entry of
its tables then asks for the digest `d` that stands in it, unless that is a binary one, which is
taken for the digits of its number. So behind such a header a record whose payload has the declared
length and the digest without quotes is valid, unless the digest is binary.

**Proof sketch.** What is read of a digest is known from its characters (`Decode.digest_ofPlain?`).
An entry is read field by field, and its other fields can be read, so the digest decides
(`Decode.succeeds_spec`); tables, memory chips and headers are read if all their entries are
(`ManifestDocument.succeeds_ofText`). The outcomes are those of `WrittenSpec.ReadAs.classify_eq`. -/
theorem ManifestDocument.ofText_unquoted {text : ByteArray} {header : Value}
    {shape : ManifestShape} {first : List WrittenSpec} {others : List (List WrittenSpec)}
    (hvalue : Value.ofText? text = some header) (h : header.HasTables shape (first :: others))
    (hdistinct : (first.map (·.name)).Nodup) :
    ((∃ document, ofText text = .ok document) ↔
      ∀ entries ∈ first :: others, ∀ written ∈ entries, ∀ d, written.unquoted = some d →
        ¬IsFloatDigest d) ∧
    ∀ document, ofText text = .ok document →
      document.shape = shape ∧
      List.Forall₂ (List.Forall₂ fun written spec =>
          spec.name = written.name ∧ spec.payloadSize = written.payloadSize ∧
          ∀ d, written.unquoted = some d →
            spec.expectedDigest = some (unquotedDigest d) ∧
            (spec.expectedDigest = some d ↔ binaryNumber? d = none))
        (first :: others) document.tables ∧
      ∀ {σ : Type} (sink : Sink σ), sink.NeverFails → ∀ data offset payloads state,
        offset ≤ data.size → Record.Tiles data offset payloads .empty →
        payloads.length = first.length →
          ∃ report, (scanRecords sink data document offset state).result = .ok report ∧
            ∀ (i : Nat) (written : WrittenSpec) (payload : ByteArray),
              first[i]? = some written → payloads[i]? = some payload →
              payload.size = written.payloadSize.toNat →
              written.unquoted = some (shortDigest payload) →
                report.outcomes[i]? = some (written.outcome payload) := by
  have hread := succeeds_ofText hvalue h hdistinct
  refine ⟨hread.exists_iff, fun document hdocument => ?_⟩
  obtain ⟨hshape, htables⟩ := hread.kind_of_eq_ok hdocument
  refine ⟨hshape, ?_, ?_⟩
  · refine htables.imp fun entries specs hspecs => hspecs.imp fun written spec hspec => ?_
    refine ⟨hspec.name, hspec.payloadSize, fun d hunquoted => ?_⟩
    rw [hspec.expectedDigest_eq hunquoted]
    exact ⟨rfl, by rw [Option.some.injEq, unquotedDigest_eq_self_iff]⟩
  · intro σ sink hsink data offset payloads state hoffset htiles hlength
    obtain ⟨specs, rest, hspecs, -, hcons⟩ := List.forall₂_cons_left_iff.1 htables
    have hpartitions := head?_tables hcons
    have hscan := scanRecords_of_tiles hsink hoffset
      (by rw [hlength, hpartitions, hspecs.length_eq]) htiles state
    refine ⟨_, hscan, fun i written payload hwritten hpayload hsize hunquoted => ?_⟩
    obtain ⟨spec, hspec, hreadAs⟩ : ∃ spec, specs[i]? = some spec ∧ written.ReadAs spec := by
      obtain ⟨hi, rfl⟩ := List.getElem?_eq_some_iff.1 hwritten
      have hi' : i < specs.length := hspecs.length_eq ▸ hi
      exact ⟨specs[i], List.getElem?_eq_getElem hi', hspecs.get hi hi'⟩
    rw [hpartitions, List.getElem?_zipWith, hspec, hpayload]
    exact congrArg some (hreadAs.classify_eq hsize hunquoted)

/-- The entry of a payload whose digest has decimal digits only, without quotes. -/
def Json.decimalEntry : Json :=
  .object [("name", .string "boot"), ("payloadSize", .number 2), ("sha1", .number 90283840)]

/-- What is written in that entry. -/
def WrittenSpec.decimal : WrittenSpec :=
  ⟨"boot", 2, some "90283840"⟩

/-- The header with `Json.decimalEntry` has it in its table. -/
private lemma Json.hasTables_decimalEntry :
    (headerOf decimalEntry).toYaml.HasTables .bundle [[.decimal]] := by
  have hdigest : IsDigest "90283840" := by decide
  have hmeaning : Value.ofScalar? none "90283840" true = some (Json.number 90283840).toYaml := by
    have hdigits : String.ofList (Nat.toDigits 10 90283840) = "90283840" := by decide +kernel
    rw [Value.ofScalar?, Value.ofUntagged?, if_pos rfl, ← hdigits]
    exact Value.ofPlain?_toDigits (n := 90283840) (by decide)
  refine .bundle (hasFields_toYaml (by decide)) (List.mem_of_getElem? (i := 1) rfl) ?_ ?_
  · simp [Manifest.Allows]
  · refine ⟨_, .inl rfl, .cons ⟨_, hasFields_toYaml (by decide), ?_⟩ .nil⟩
    exact
      { name := ⟨_, List.mem_of_getElem? (i := 0) rfl, rfl⟩
        payloadSize := ⟨_, _, by decide, List.mem_of_getElem? (i := 1) rfl, rfl⟩
        once := by decide
        sha1 := .inl ⟨_, List.mem_of_getElem? (i := 2) rfl, .unquoted hdigest hmeaning⟩
        partitionSize := by simp }

/-- The digest of `Json.decimalEntry` is read as it was written, and its payload is valid. -/
theorem ManifestDocument.ofText_unquoted_decimal :
    ∃ document, ofText (Json.headerOf .decimalEntry).compact.toUTF8 = .ok document ∧
      (∃ spec, document.tables = [[spec]] ∧ spec.expectedDigest = some "90283840") ∧
      ∃ report, (scanRecords .discard (Record.encode ⟨#[0x61, 0x7a]⟩) document 0 ()).result =
          .ok report ∧ report.outcomes[0]? = some (.ok "boot" 2 "90283840") := by
  have hdigest : shortDigest ⟨#[0x61, 0x7a]⟩ = "90283840" := by decide +kernel
  have hvalue : Value.ofText? (Json.headerOf .decimalEntry).compact.toUTF8 =
      some (Json.headerOf .decimalEntry).toYaml := by
    have hname : Json.Shaped 125 (.string "boot") := .string _
    have hsize : Json.Shaped 125 (.number 2) := .number (by decide)
    have hsha1 : Json.Shaped 125 (.number 90283840) := .number (by decide)
    have hsafe : ∀ text ∈ (Json.headerOf .decimalEntry).texts, SafeText text := by decide
    exact Json.ofText?_headerOf
      (.object (by decide) (by decide) (by simp [hname, hsize, hsha1])) hsafe
  obtain ⟨hiff, hread⟩ := ofText_unquoted hvalue Json.hasTables_decimalEntry (by decide)
  have hwhole : ∀ d, WrittenSpec.decimal.unquoted = some d → ¬IsFloatDigest d := by
    rintro d hd ⟨whole, exponent, m, e, hlist, -⟩
    obtain rfl := Option.some.inj hd
    have hletter : 'e' ∈ "90283840".toList := by simp [hlist]
    exact absurd hletter (by decide)
  obtain ⟨document, hdocument⟩ := hiff.2 (by simpa using hwhole)
  obtain ⟨-, htables, hscan⟩ := hread document hdocument
  refine ⟨document, hdocument, ?_, ?_⟩
  · generalize document.tables = tables at htables
    cases htables with
    | cons hfirst hrest =>
      cases hrest
      cases hfirst with
      | cons hspec hspecs =>
        cases hspecs
        exact ⟨_, rfl, (hspec.2.2 _ rfl).1.trans (by decide +kernel)⟩
  · have htiles : Record.Tiles (Record.encode ⟨#[0x61, 0x7a]⟩) 0 [⟨#[0x61, 0x7a]⟩] .empty :=
      ⟨by decide, by decide +kernel⟩
    obtain ⟨report, hreport, houtcomes⟩ :=
      hscan .discard Sink.discard_neverFails _ 0 _ () (Nat.zero_le _) htiles rfl
    refine ⟨report, hreport, ?_⟩
    rw [houtcomes 0 .decimal ⟨#[0x61, 0x7a]⟩ rfl rfl (by decide) (by rw [hdigest]; rfl),
      WrittenSpec.outcome, hdigest]
    rfl

/-- A header with one entry, whose digest stands without quotes. -/
def unquotedHeader (size : Nat) (d : String) : String :=
  "partitions:\n  - name: boot\n    size: " ++ toString size ++ "\n    sha1: " ++ d ++ "\n"

/-- Not every digest can be written without quotes: there is a payload whose digest spells a
fractional number, so that the header is refused, and one whose digest is binary, so that the header
is read but the payload is found invalid. -/
theorem not_forall_ofText_unquoted :
    (¬∀ payload : ByteArray, ∃ document, ManifestDocument.ofText
      (unquotedHeader payload.size (shortDigest payload)).toUTF8 = .ok document) ∧
    ¬∀ (payload : ByteArray) (document : ManifestDocument), ManifestDocument.ofText
      (unquotedHeader payload.size (shortDigest payload)).toUTF8 = .ok document →
        ∀ spec ∈ document.partitions, spec.expectedDigest = some (shortDigest payload) ∧
          (Outcome.classify spec payload).isOk := by
  constructor
  · intro h
    have hdigest : shortDigest ⟨#[0x65, 0x75]⟩ = "608e0133" := by decide +kernel
    have hrefused : (ManifestDocument.ofText (unquotedHeader
        (ByteArray.size ⟨#[0x65, 0x75]⟩) "608e0133").toUTF8).toOption = none := by decide +kernel
    obtain ⟨document, hread⟩ := h ⟨#[0x65, 0x75]⟩
    rw [hdigest, ← toOption_eq_some_iff, hrefused] at hread
    cases hread
  · intro h
    have hdigest : shortDigest ⟨#[0x07, 0x06, 0xa4, 0x77]⟩ = "0b100001" := by decide +kernel
    have hread : (ManifestDocument.ofText (unquotedHeader
        (ByteArray.size ⟨#[0x07, 0x06, 0xa4, 0x77]⟩) "0b100001").toUTF8).toOption =
          some (.bundle { BootParameters.unstated with
            partitions := [⟨"boot", 4, some "00000033", none⟩] }) := by decide +kernel
    rw [← hdigest, toOption_eq_some_iff] at hread
    have hasked := (h _ _ hread _ (List.mem_singleton_self _)).1
    rw [hdigest] at hasked
    exact absurd hasked (by decide)

end FirmwareBundle
