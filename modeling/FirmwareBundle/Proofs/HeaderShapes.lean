import FirmwareBundle.Bundle.Scan
import FirmwareBundle.Proofs.HeaderFields
import FirmwareBundle.Proofs.HeaderTexts
import FirmwareBundle.Proofs.Scan
/-!
# The two shapes of a header

A manifest has its table of partitions at the top, and a device descriptor has it in its first
memory chip. Whether a header is read, which table it has and what a scan does with it depend on the
value in the place of the table, not on the shape. What stands beside the table is of no account,
provided that the known fields have the right types.

## Main definitions

* `FirmwareBundle.Manifest.Allows` — the values that the fields beside the table may have.
* `FirmwareBundle.Yaml.Value.IsTableOf` — a value stands in the place of the table of a header.

## Main results

* `FirmwareBundle.ManifestDocument.exists_ofText_eq_ok_iff` — the headers that are read.
* `FirmwareBundle.ManifestDocument.ofText_of_isTableOf` — headers with the same table are read alike
  and scanned alike.
-/

namespace FirmwareBundle

open Yaml

/-! ## Headers with a table -/

/-- The `value` is a text, perhaps with tags around it. -/
def Yaml.Value.IsText (value : Value) : Prop :=
  ∃ text, value.untagged = .string text

/-- The field `key` of a manifest, beside its table, may have the `value`. Other keys have any. -/
def Manifest.Allows (key : String) (value : Value) : Prop :=
  match key with
  | "kernelMem" | "mtdPrefix" | "osmem" => value.IsText
  | "setTotalMem" => ∃ b, value.untagged = .boolean b
  | "additionalCmdline" => value = .null ∨ value.IsText
  | "skip" => value.untagged = .null ∨
      ∃ items, value.untagged = .sequence items ∧ ∀ item ∈ items, item.IsText
  | _ => True

/-- The value `entries` stands in the place of the table of a header: at the top of a manifest whose
other fields have the right types, or in the first memory chip of a device descriptor whose other
chips can be read. -/
inductive Yaml.Value.IsTableOf (entries : Value) : ManifestShape → Value → Prop
  | bundle {header : Value} {fields : List (String × Value)} (hasFields : header.HasFields fields)
      (table : ("partitions", entries) ∈ fields)
      (allowed : ∀ field ∈ fields, Manifest.Allows field.1 field.2) :
      IsTableOf entries .bundle header
  | deviceDescriptor {header rom chip : Value} {chips : List Value}
      {fields chipFields : List (String × Value)} (hasFields : header.HasFields fields)
      (noTable : "partitions" ∉ fields.map (·.1)) (rom_mem : ("rom", rom) ∈ fields)
      (rom_eq : rom.untagged = .sequence (chip :: chips))
      (chipHasFields : chip.HasFields chipFields) (table : ("partitions", entries) ∈ chipFields)
      (others : ∀ other ∈ chips, ∃ descriptor, Decode.romDescriptor other = .ok descriptor) :
      IsTableOf entries .deviceDescriptor header

/-! ## Values that can be read -/

namespace Decode

variable {α : Type} {read : Value → Decoded α} {value entries : Value}
  {fields : List (String × Value)}

/-- The values that are read as texts are texts. -/
lemma exists_text_eq_ok_iff : (∃ s, text value = .ok s) ↔ value.IsText := by
  rw [text, textAs, Yaml.Value.IsText]
  split <;> simp_all [refuse]

/-- The values that are read as truth values are such. -/
lemma exists_boolean_eq_ok_iff :
    (∃ b, boolean value = .ok b) ↔ ∃ b, value.untagged = .boolean b := by
  rw [boolean]
  split <;> simp_all [refuse]

/-- A `value` other than null is not left out, and read by `read`. -/
private lemma optional_of_ne_null (h : value ≠ .null) :
    optional read value = (read value).map some := by
  cases value with
  | null => exact absurd rfl h
  | _ => rfl

/-- A `value` that may be left out can be null, or one that `read` reads. -/
lemma exists_optional_eq_ok_iff :
    (∃ o, optional read value = .ok o) ↔ value = .null ∨ ∃ x, read value = .ok x := by
  by_cases hnull : value = .null
  · subst hnull
    exact ⟨fun _ => .inl rfl, fun _ => ⟨none, rfl⟩⟩
  · rw [optional_of_ne_null hnull]
    cases read value <;> simp [hnull, Except.map]

/-- Items can be read if `read` reads each of them; null has none. -/
lemma exists_items_eq_ok_iff :
    (∃ xs, items read value = .ok xs) ↔ value.untagged = .null ∨
      ∃ values, value.untagged = .sequence values ∧ ∀ item ∈ values, ∃ x, read item = .ok x := by
  rw [items]
  split
  case h_1 hnull => simp [hnull]
  case h_2 values hvalues => simp [hvalues, exists_mapM_eq_ok_iff]
  case h_3 hnull hsequence =>
    constructor
    · rintro ⟨xs, h⟩
      cases h
    · rintro (h | ⟨values, h, -⟩)
      · exact absurd h hnull
      · exact absurd h (hsequence values)

/-- A `value` that a `field` of a manifest may have is read for it, by the lemma for its type. -/
private lemma exists_read_of_allows {field : Field ManifestDraft} (hfield : field ∈ manifestFields)
    {key : String} (hkey : key ∈ field.names) (hother : key ≠ "partitions")
    (h : Manifest.Allows key value) : ∃ content, field.read value = .ok content := by
  simp only [manifestFields, List.mem_cons, List.not_mem_nil, or_false] at hfield
  rcases hfield with rfl | rfl | rfl | rfl | rfl | rfl | rfl <;>
    obtain rfl := List.mem_singleton.1 hkey
  · exact exists_text_eq_ok_iff.2 h
  · exact exists_boolean_eq_ok_iff.2 h
  · exact exists_text_eq_ok_iff.2 h
  · exact exists_text_eq_ok_iff.2 h
  · exact exists_optional_eq_ok_iff.2 (h.imp_right exists_text_eq_ok_iff.2)
  · have hitems : value.untagged = .null ∨ ∃ values, value.untagged = .sequence values ∧
        ∀ item ∈ values, ∃ s, text item = .ok s := by
      refine h.imp_right ?_
      rintro ⟨values, hvalues, htexts⟩
      exact ⟨values, hvalues, fun item hitem => exists_text_eq_ok_iff.2 (htexts item hitem)⟩
    exact exists_optional_eq_ok_iff.2 (.inr (exists_items_eq_ok_iff.2 hitems))
  · exact absurd rfl hother

/-! ## Records with a table -/

/-- **A record with one field** has what is read for the field, the value `entries` of `key`.

**Proof sketch.** What the record has for the field is what is read of the entry that names it
(`Decode.Reads.exists_of_record_eq_ok`). Conversely the entries can be read if the field makes
something of them (`Decode.Reads.exists_foldlM_iff`), and that needs this entry alone. -/
theorem record_soleField_eq_ok_iff {key name : String}
    {put : Option α → String → Value → Decoded (Option α)} (h : Reads put [soleField key read])
    (hfields : value.HasFields fields) (hentries : (key, entries) ∈ fields) {draft : Option α} :
    record name put none value = .ok draft ↔
      ∃ content, read entries = .ok content ∧ draft = some content := by
  have hcontent : ∀ {last : Option α}, record name put none value = .ok last →
      ∃ content, read entries = .ok content ∧ last = some content :=
    h.exists_of_record_eq_ok (List.mem_singleton_self _) rfl rfl hfields hentries
  refine ⟨hcontent, ?_⟩
  rintro ⟨content, hread, rfl⟩
  have hrecord : ∃ last, record name put none value = .ok last := by
    rw [record_of_hasFields hfields]
    refine h.exists_foldlM_iff.2 fun field hfield => ?_
    obtain rfl := List.mem_singleton.1 hfield
    exact ⟨some content,
      (Field.run_none_iff_of_mem rfl hfields.distinct hentries).2 ⟨content, hread, rfl⟩⟩
  obtain ⟨last, hlast⟩ := hrecord
  obtain ⟨other, hother, rfl⟩ := hcontent hlast
  obtain rfl := Except.ok.inj (hother.symm.trans hread)
  exact hlast

/-- **A memory chip is read** if the table `entries` in it is. -/
theorem romDescriptor_eq_ok_iff (hfields : value.HasFields fields)
    (hentries : ("partitions", entries) ∈ fields) {chip : RomDescriptor} :
    romDescriptor value = .ok chip ↔ table entries = .ok chip.partitions := by
  rw [romDescriptor, bind_eq_ok_iff]
  constructor
  · rintro ⟨draft, hdraft, h⟩
    obtain ⟨specs, hspecs, rfl⟩ := (record_soleField_eq_ok_iff reads_rom hfields hentries).1 hdraft
    obtain rfl := Except.ok.inj h
    exact hspecs
  · intro h
    exact ⟨_, (record_soleField_eq_ok_iff reads_rom hfields hentries).2 ⟨_, h, rfl⟩, rfl⟩

/-- A device descriptor is read if its memory chips, in the sequence `rom`, are. -/
lemma deviceDescriptor_eq_ok_iff (hfields : value.HasFields fields) {rom : Value}
    (hrom : ("rom", rom) ∈ fields) {descriptor : DeviceDescriptor} :
    deviceDescriptor value = .ok descriptor ↔ items romDescriptor rom = .ok descriptor.rom := by
  rw [deviceDescriptor, bind_eq_ok_iff]
  constructor
  · rintro ⟨draft, hdraft, h⟩
    obtain ⟨chips, hchips, rfl⟩ := (record_soleField_eq_ok_iff reads_device hfields hrom).1 hdraft
    obtain rfl := Except.ok.inj h
    exact hchips
  · intro h
    exact ⟨_, (record_soleField_eq_ok_iff reads_device hfields hrom).2 ⟨_, h, rfl⟩, rfl⟩

/-- The table of a manifest `m` is what is read of the value `entries` in its place. -/
lemma table_eq_of_manifest_eq_ok (hfields : value.HasFields fields)
    (hentries : ("partitions", entries) ∈ fields) {m : Manifest} (h : manifest value = .ok m) :
    table entries = .ok m.partitions := by
  obtain ⟨draft, hdraft, h⟩ := bind_eq_ok_iff.1 h
  obtain ⟨specs, hspecs, h⟩ := bind_eq_ok_iff.1 h
  obtain ⟨content, hcontent, hdraft⟩ :=
    reads_manifest.exists_of_record_eq_ok tableField_mem rfl rfl hfields hentries hdraft
  rw [show draft.partitions = some content from hdraft] at hspecs
  obtain rfl := Except.ok.inj hspecs
  obtain rfl := Except.ok.inj h
  exact hcontent

/-- **A manifest is read** if its table is and its other fields have the right types.

**Proof sketch.** The entries can be read if each field makes something of them
(`Decode.Reads.exists_foldlM_iff`). The table does by `h`, and the other fields do by `hallowed`
(`Decode.exists_read_of_allows`). Then the draft has a table, and the fields that may be left out do
not matter. -/
theorem exists_manifest_eq_ok (hfields : value.HasFields fields)
    (hentries : ("partitions", entries) ∈ fields)
    (hallowed : ∀ field ∈ fields, Manifest.Allows field.1 field.2) {specs : List PartitionSpec}
    (h : table entries = .ok specs) : ∃ m, manifest value = .ok m := by
  have htable : tableField.Run none fields (some specs) :=
    (Field.run_none_iff_of_mem rfl hfields.distinct hentries).2 ⟨specs, h, rfl⟩
  have hrecord : ∃ draft, record "Manifest" ManifestDraft.put {} value = .ok draft := by
    rw [record_of_hasFields hfields]
    refine reads_manifest.exists_foldlM_iff.2 fun field hfield => ?_
    -- The table is read by hypothesis, and the other fields since they have the right types.
    have hcases := hfield
    simp only [manifestFields, List.mem_cons, List.not_mem_nil, or_false] at hcases
    rcases hcases with rfl | rfl | rfl | rfl | rfl | rfl | rfl
    case inr.inr.inr.inr.inr.inr => exact ⟨_, htable⟩
    all_goals
      refine (Field.exists_run_none_iff rfl hfields.distinct).2 fun value hmem => ?_
      exact exists_read_of_allows hfield (List.mem_singleton_self _) (by decide) (hallowed _ hmem)
  obtain ⟨draft, hdraft⟩ := hrecord
  have hspecs : require "partitions" draft.partitions = .ok specs := by
    obtain ⟨content, hcontent, hpartitions⟩ :=
      reads_manifest.exists_of_record_eq_ok tableField_mem rfl rfl hfields hentries hdraft
    obtain rfl := Except.ok.inj (hcontent.symm.trans h)
    rw [show draft.partitions = some content from hpartitions]
    rfl
  exact ⟨_, bind_eq_ok_iff.2 ⟨draft, hdraft, bind_eq_ok_iff.2 ⟨specs, hspecs, rfl⟩⟩⟩

end Decode

/-! ## Headers of either shape -/

namespace ManifestDocument

variable {text text' : ByteArray} {header header' entries : Value} {shape shape' : ManifestShape}
  {document document' : ManifestDocument}

/-- A `header` with a table at the top is a manifest. -/
lemma ofValue_of_mem {fields : List (String × Value)} (hfields : header.HasFields fields)
    (htable : "partitions" ∈ fields.map (·.1)) :
    ofValue header = (Decode.manifest header).map .bundle := by
  rw [ofValue, if_pos (hfields.isSome_get?_iff.2 htable)]

/-- A `header` without one but with memory chips is a device descriptor, and is refused if there is
no chip. -/
lemma ofValue_of_notMem {fields : List (String × Value)} (hfields : header.HasFields fields)
    (htable : "partitions" ∉ fields.map (·.1)) (hrom : "rom" ∈ fields.map (·.1)) :
    ofValue header = Decode.deviceDescriptor header >>= fun descriptor =>
      if descriptor.rom.isEmpty then .error .noRom else pure (.device descriptor) := by
  rw [ofValue, if_neg fun h => htable (hfields.isSome_get?_iff.1 h),
    if_pos (hfields.isSome_get?_iff.2 hrom)]

/-- What is read for a `header` has its `shape`, and its table is what is read of `entries`.

**Proof sketch.** A manifest has the table that is read for it
(`Decode.table_eq_of_manifest_eq_ok`). A device descriptor has that of its first chip, which is read
from `entries` (`Decode.romDescriptor_eq_ok_iff`). -/
private lemma table_eq_of_ofValue_eq_ok (h : entries.IsTableOf shape header)
    (hread : ofValue header = .ok document) :
    document.shape = shape ∧ Decode.table entries = .ok document.partitions := by
  cases h with
  | bundle hfields hentries =>
    rw [ofValue_of_mem hfields (List.mem_map_of_mem hentries)] at hread
    cases hmanifest : Decode.manifest header with
    | error fault =>
      rw [hmanifest] at hread
      cases hread
    | ok m =>
      rw [hmanifest] at hread
      obtain rfl := Except.ok.inj hread
      exact ⟨rfl, Decode.table_eq_of_manifest_eq_ok hfields hentries hmanifest⟩
  | deviceDescriptor hfields hnone hrom hchips hchip hentries =>
    rw [ofValue_of_notMem hfields hnone (List.mem_map_of_mem hrom)] at hread
    obtain ⟨descriptor, hdescriptor, hread⟩ := bind_eq_ok_iff.1 hread
    rw [Decode.deviceDescriptor_eq_ok_iff hfields hrom, Decode.items, hchips] at hdescriptor
    obtain ⟨first, rest, hfirst, -, hall⟩ := mapM_cons_eq_ok_iff.1 hdescriptor
    rw [hall] at hread
    obtain rfl := Except.ok.inj hread
    rw [partitions, hall]
    exact ⟨rfl, (Decode.romDescriptor_eq_ok_iff hchip hentries).1 hfirst⟩

/-- A `header` whose table can be read is read, whatever its `shape` is.

**Proof sketch.** A manifest is read by `Decode.exists_manifest_eq_ok`. The first chip of a device
descriptor is read as its table is (`Decode.romDescriptor_eq_ok_iff`), and the others are by
assumption. -/
private lemma exists_ofValue_eq_ok (h : entries.IsTableOf shape header) {specs : List PartitionSpec}
    (hspecs : Decode.table entries = .ok specs) : ∃ document, ofValue header = .ok document := by
  cases h with
  | bundle hfields hentries hallowed =>
    obtain ⟨m, hm⟩ := Decode.exists_manifest_eq_ok hfields hentries hallowed hspecs
    refine ⟨.bundle m, ?_⟩
    rw [ofValue_of_mem hfields (List.mem_map_of_mem hentries), hm]
    rfl
  | @deviceDescriptor header rom chip chips _ _ hfields hnone hrom hchips hchip hentries hothers =>
    have hfirst : Decode.romDescriptor chip = .ok ⟨specs⟩ :=
      (Decode.romDescriptor_eq_ok_iff hchip hentries).2 hspecs
    obtain ⟨rest, hrest⟩ := exists_mapM_eq_ok_iff.2 hothers
    have hitems : Decode.items Decode.romDescriptor rom = .ok (⟨specs⟩ :: rest) := by
      rw [Decode.items, hchips]
      exact mapM_cons_eq_ok_iff.2 ⟨_, _, hfirst, hrest, rfl⟩
    have hdescriptor : Decode.deviceDescriptor header = .ok ⟨⟨specs⟩ :: rest⟩ :=
      (Decode.deviceDescriptor_eq_ok_iff hfields hrom).2 hitems
    refine ⟨.device ⟨⟨specs⟩ :: rest⟩, ?_⟩
    rw [ofValue_of_notMem hfields hnone (List.mem_map_of_mem hrom), hdescriptor]
    rfl

/-- What is read for the `text` of a header has its `shape` and what is read of its table, and the
names in the table are distinct. -/
private lemma table_eq_of_ofText_eq_ok (hvalue : Value.ofText? text = some header)
    (h : entries.IsTableOf shape header) (hread : ofText text = .ok document) :
    document.shape = shape ∧ Decode.table entries = .ok document.partitions ∧
      (document.partitions.map (·.name)).Nodup := by
  rw [ofText, hvalue] at hread
  obtain ⟨found, hfound, hread⟩ := bind_eq_ok_iff.1 hread
  obtain ⟨hdistinct, rfl⟩ := requireDistinct_eq_ok_iff.1 hread
  obtain ⟨hshape, htable⟩ := table_eq_of_ofValue_eq_ok h hfound
  exact ⟨hshape, htable, hdistinct⟩

/-- **The text of a header is read** if and only if its table can be read and has distinct names. -/
theorem exists_ofText_eq_ok_iff (hvalue : Value.ofText? text = some header)
    (h : entries.IsTableOf shape header) :
    (∃ document, ofText text = .ok document) ↔
      ∃ specs, Decode.table entries = .ok specs ∧ (specs.map (·.name)).Nodup := by
  constructor
  · rintro ⟨document, hread⟩
    exact ⟨_, (table_eq_of_ofText_eq_ok hvalue h hread).2⟩
  · rintro ⟨specs, hspecs, hdistinct⟩
    obtain ⟨document, hread⟩ := exists_ofValue_eq_ok h hspecs
    have htable := (table_eq_of_ofValue_eq_ok h hread).2
    obtain rfl := Except.ok.inj (htable.symm.trans hspecs)
    refine ⟨document, ?_⟩
    rw [ofText, hvalue]
    exact bind_eq_ok_iff.2 ⟨document, hread, requireDistinct_eq_ok_iff.2 ⟨hdistinct, rfl⟩⟩

/-- **Memory chips beside a table at the top are ignored.** Headers with the same fields but for
those chips are read alike, since a manifest passes over such entries (`Decode.foldlM_filter`). -/
theorem ofText_eq_of_filter_eq {fields fields' : List (String × Value)}
    (hvalue : Value.ofText? text = some header) (hvalue' : Value.ofText? text' = some header')
    (hfields : header.HasFields fields) (hfields' : header'.HasFields fields')
    (htable : "partitions" ∈ fields.map (·.1))
    (hsame : fields.filter (·.1 ≠ "rom") = fields'.filter (·.1 ≠ "rom")) :
    ofText text = ofText text' := by
  have htable' : "partitions" ∈ fields'.map (·.1) := by
    obtain ⟨field, hfield, hkey⟩ := List.mem_map.1 htable
    have hfilter : field ∈ fields'.filter (·.1 ≠ "rom") := by
      rw [← hsame]
      exact List.mem_filter.2 ⟨hfield, by simp [hkey]⟩
    exact List.mem_map.2 ⟨field, (List.mem_filter.1 hfilter).1, hkey⟩
  have hskip : ∀ draft (field : String × Value), decide (field.1 ≠ "rom") = false →
      Decode.ManifestDraft.put draft field.1 field.2 = .ok draft := by
    intro draft field hkey
    obtain hkey : field.1 = "rom" := by simpa using hkey
    rw [hkey]
    rfl
  have hmanifest : Decode.manifest header = Decode.manifest header' := by
    rw [Decode.manifest, Decode.manifest, Decode.record_of_hasFields hfields,
      Decode.record_of_hasFields hfields', ← Decode.foldlM_filter _ hskip fields,
      ← Decode.foldlM_filter _ hskip fields', hsame]
  rw [ofText, ofText, hvalue, hvalue']
  simp only [ofValue_of_mem hfields htable, ofValue_of_mem hfields' htable', hmanifest]

end ManifestDocument

/-! ## Scans behind headers of either shape -/

/-- A scan depends on the table of a header, which is the same for `document` and `document'`; the
shape stands in the report only. -/
lemma scanRecords_of_partitions_eq {document document' : ManifestDocument}
    (h : document'.partitions = document.partitions) {σ : Type} (sink : Sink σ) (data : ByteArray)
    (offset : Nat) (state : σ) :
    scanRecords sink data document' offset state =
      (scanRecords sink data document offset state).map
        fun report => { report with shape := document'.shape } := by
  rw [scanRecords, scanRecords, h, Scan.map_map]
  rfl

/-- **Headers with the same table are read alike and scanned alike**, whatever their shapes `shape`
and `shape'` are. The reports differ in the shape only, and memory chips beside a table at the top
are of no account.

**Proof sketch.** Either header is read if and only if its table can be read and has distinct names
(`ManifestDocument.exists_ofText_eq_ok_iff`), and what is read has that table. A scan depends on the
table alone (`scanRecords_of_partitions_eq`). -/
theorem ManifestDocument.ofText_of_isTableOf {text text' : ByteArray}
    {header header' entries : Value} {shape shape' : ManifestShape}
    (hvalue : Value.ofText? text = some header) (hvalue' : Value.ofText? text' = some header')
    (h : entries.IsTableOf shape header) (h' : entries.IsTableOf shape' header') :
    ((∃ document, ofText text = .ok document) ↔ ∃ document', ofText text' = .ok document') ∧
      (∀ {document document' : ManifestDocument}, ofText text = .ok document →
        ofText text' = .ok document' →
          document.shape = shape ∧ document'.shape = shape' ∧
          document'.partitions = document.partitions ∧
          ∀ {σ : Type} (sink : Sink σ) (data : ByteArray) (offset : Nat) (state : σ),
            scanRecords sink data document' offset state =
              (scanRecords sink data document offset state).map
                fun report => { report with shape := shape' }) ∧
      (shape = .bundle → ∀ {other : ByteArray} {value : Value}
        {fields fields' : List (String × Value)}, Value.ofText? other = some value →
          header.HasFields fields → value.HasFields fields' →
          fields.filter (·.1 ≠ "rom") = fields'.filter (·.1 ≠ "rom") →
          ofText other = ofText text) := by
  refine ⟨?_, ?_, ?_⟩
  · rw [exists_ofText_eq_ok_iff hvalue h, exists_ofText_eq_ok_iff hvalue' h']
  · intro document document' hread hread'
    obtain ⟨hshape, htable, -⟩ := table_eq_of_ofText_eq_ok hvalue h hread
    obtain ⟨hshape', htable', -⟩ := table_eq_of_ofText_eq_ok hvalue' h' hread'
    have hpartitions : document'.partitions = document.partitions :=
      Except.ok.inj (htable'.symm.trans htable)
    refine ⟨hshape, hshape', hpartitions, fun sink data offset state => ?_⟩
    rw [scanRecords_of_partitions_eq hpartitions, hshape']
  · rintro rfl other value fields fields' hother hfields hfields' hsame
    have htable : "partitions" ∈ fields.map (·.1) := by
      cases h with
      | bundle hfields' hentries =>
        exact hfields.isSome_get?_iff.1
          (hfields'.isSome_get?_iff.2 (List.mem_map_of_mem hentries))
    exact (ofText_eq_of_filter_eq hvalue hother hfields hfields' htable hsame).symm

/-! ## Headers that are written -/

/-- The `items` of an array mean what they mean one by one. -/
lemma Json.itemsToYaml_eq_map (items : List Json) : itemsToYaml items = items.map toYaml := by
  induction items with
  | nil => rfl
  | cons item items ih => rw [itemsToYaml, ih, List.map_cons]

/-- The `fields` of an object are those of its meaning, if their keys are distinct. -/
lemma Json.hasFields_toYaml {fields : List (String × Json)}
    (h : (fields.map (·.1)).Nodup) :
    (Json.object fields).toYaml.HasFields (fields.map fun field => (field.1, field.2.toYaml)) where
  untagged_eq := by
    have hfields : fieldsToYaml fields =
        fields.map fun field => (.string field.1, field.2.toYaml) := by
      clear h
      induction fields with
      | nil => rfl
      | cons field fields ih => rw [fieldsToYaml, ih, List.map_cons]
    rw [toYaml, Value.untagged, hfields, List.map_map]
    · rfl
    · simp
  distinct := by
    rw [List.map_map]
    exact h

/-- The same of an object with one field, `value` under `key`. -/
lemma Json.hasFields_singleton (key : String) (value : Json) :
    (Json.object [(key, value)]).toYaml.HasFields [(key, value.toYaml)] :=
  hasFields_toYaml (List.nodup_singleton key)

/-- The manifest `m` that is written has its table at the top, and its other fields have the right
types. The object is gone through field by field. -/
private lemma Manifest.isTableOf_toJson (m : Manifest) :
    (tableToJson m.partitions).toYaml.IsTableOf .bundle m.toJson.toYaml := by
  have hdistinct := (m.shaped_toJson 0).distinct
  refine .bundle (Json.hasFields_toYaml hdistinct) ?_ ?_
  · exact List.mem_map.2 ⟨("partitions", tableToJson m.partitions), by simp, rfl⟩
  · intro entry hentry
    obtain ⟨field, hfield, rfl⟩ := List.mem_map.1 hentry
    simp only [BootParameters.fields, List.cons_append, List.nil_append, List.mem_cons,
      List.mem_append, mem_optionalField_iff, List.not_mem_nil, or_false] at hfield
    rcases hfield with rfl | rfl | rfl | rfl | (⟨text, -, rfl⟩ | ⟨names, -, rfl⟩) | rfl
    · exact ⟨_, rfl⟩
    · exact ⟨_, rfl⟩
    · exact ⟨_, rfl⟩
    · exact ⟨_, rfl⟩
    · exact .inr ⟨_, rfl⟩
    · refine .inr ⟨_, rfl, fun item hitem => ?_⟩
      rw [Json.itemsToYaml_eq_map, List.map_map] at hitem
      obtain ⟨name, -, rfl⟩ := List.mem_map.1 hitem
      exact ⟨name, rfl⟩
    · trivial

/-- The memory `chip` is read back. -/
lemma Decode.romDescriptor_toYaml (chip : RomDescriptor) :
    romDescriptor chip.toJson.toYaml = .ok chip := by
  refine (romDescriptor_eq_ok_iff (Json.hasFields_singleton ..) (List.mem_singleton_self _)).2 ?_
  exact items_toYaml spec PartitionSpec.toJson fun entry _ => spec_toYaml entry

/-- A device descriptor that is written has the table of its first memory `chip`, and its other
`chips` are read back. -/
private lemma DeviceDescriptor.isTableOf_toJson (chip : RomDescriptor)
    (chips : List RomDescriptor) :
    (tableToJson chip.partitions).toYaml.IsTableOf .deviceDescriptor
      (DeviceDescriptor.toJson ⟨chip :: chips⟩).toYaml := by
  refine .deviceDescriptor (Json.hasFields_singleton ..) (by simp) (List.mem_singleton_self _) rfl
    (Json.hasFields_singleton ..) (List.mem_singleton_self _) fun other hother => ?_
  rw [Json.itemsToYaml_eq_map, List.map_map] at hother
  obtain ⟨chip, -, rfl⟩ := List.mem_map.1 hother
  exact ⟨chip, Decode.romDescriptor_toYaml chip⟩

/-- The object of a device `descriptor` has the shape of a document. -/
lemma DeviceDescriptor.shaped_toJson (descriptor : DeviceDescriptor) (depth : Nat) :
    descriptor.toJson.Shaped (depth + 5) := by
  refine .object ?_ (List.nodup_singleton "rom") ?_
  · rintro field hfield
    obtain rfl := List.mem_singleton.1 hfield
    exact (by decide : Json.IsKey "rom")
  · rintro field hfield
    obtain rfl := List.mem_singleton.1 hfield
    refine .array fun item hitem => ?_
    obtain ⟨chip, -, rfl⟩ := List.mem_map.1 hitem
    refine .object ?_ (List.nodup_singleton "partitions") ?_
    · rintro field hfield
      obtain rfl := List.mem_singleton.1 hfield
      exact (by decide : Json.IsKey "partitions")
    · rintro field hfield
      obtain rfl := List.mem_singleton.1 hfield
      exact shaped_tableToJson _ depth

/-- A manifest with one partition. -/
def Manifest.oneBoot : Manifest where
  toBootParameters := .unstated
  partitions := [⟨"boot", 2, none, none⟩]

/-- A device descriptor with the same table in its first memory chip, and with a name twice in its
second one. -/
def DeviceDescriptor.twoChips : DeviceDescriptor :=
  ⟨[⟨Manifest.oneBoot.partitions⟩, ⟨[⟨"data", 1, none, none⟩, ⟨"data", 3, none, none⟩]⟩]⟩

/-- The text of `DeviceDescriptor.twoChips` is read, and a scan behind it is one behind the manifest
`Manifest.oneBoot`. -/
theorem ManifestDocument.ofText_twoChips :
    ∃ text document, ofText Manifest.oneBoot.header = .ok (.bundle .oneBoot) ∧
      Value.ofText? text = some DeviceDescriptor.twoChips.toJson.toYaml ∧
      ofText text = .ok document ∧ document.shape = .deviceDescriptor ∧
      document.partitions = Manifest.oneBoot.partitions ∧
      ∀ {σ : Type} (sink : Sink σ) (data : ByteArray) (offset : Nat) (state : σ),
        scanRecords sink data document offset state =
          (scanRecords sink data (.bundle .oneBoot) offset state).map
            fun report => { report with shape := .deviceDescriptor } := by
  have hlegible : ∀ text ∈ Manifest.oneBoot.toJson.texts, SafeText text := by decide
  have hlegible' : ∀ text ∈ DeviceDescriptor.twoChips.toJson.texts, SafeText text := by decide
  have hvalue : Value.ofText? Manifest.oneBoot.header = some Manifest.oneBoot.toJson.toYaml :=
    Value.ofText?_write_of_legible .compact (Manifest.shaped_toJson _ 125)
      fun text htext => legible_of_safeText (hlegible text htext)
  have hvalue' := Value.ofText?_write_of_legible .compact
    (DeviceDescriptor.twoChips.shaped_toJson 123)
      fun text htext => legible_of_safeText (hlegible' text htext)
  have hread : ofText Manifest.oneBoot.header = .ok (.bundle .oneBoot) :=
    ofText_header_of_nodup (by decide) (by decide)
  obtain ⟨hiff, hsame, -⟩ := ofText_of_isTableOf hvalue hvalue' Manifest.oneBoot.isTableOf_toJson
    (DeviceDescriptor.isTableOf_toJson ⟨Manifest.oneBoot.partitions⟩ _)
  obtain ⟨document, hread'⟩ := hiff.1 ⟨_, hread⟩
  obtain ⟨-, hshape, hpartitions, hscan⟩ := hsame hread hread'
  exact ⟨_, document, hread, hvalue', hread', hshape, hpartitions, hscan⟩

end FirmwareBundle
