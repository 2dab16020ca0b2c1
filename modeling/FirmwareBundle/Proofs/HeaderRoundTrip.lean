import FirmwareBundle.Manifest.Decode
import FirmwareBundle.Manifest.Header
import FirmwareBundle.Proofs.FlowNode
import FirmwareBundle.Proofs.LegibleText
/-!
# Headers read back

The header of a manifest is read back as that manifest, whoever wrote it, provided that its texts
are safe and that the names in its table are distinct. If a name stands twice the header is refused,
and the refusal names the first entry whose name stands before it.

## Main definitions

* `FirmwareBundle.Manifest.Safe` — the texts of a manifest are safe.

## Main results

* `FirmwareBundle.ManifestDocument.ofValue_toJson` — the value of the header means the manifest.
* `FirmwareBundle.ManifestDocument.ofText_header` — the text of the header is read back, or refused
  for the first name that repeats another.
-/

namespace FirmwareBundle

open Yaml

/-! ## Safe manifests -/

/-- The texts of the entry `spec` of the table are safe. -/
structure PartitionSpec.Safe (spec : PartitionSpec) : Prop where
  name : SafeText spec.name
  sha1 : ∀ digest ∈ spec.sha1, SafeText digest

instance : DecidablePred PartitionSpec.Safe := fun spec =>
  decidable_of_iff (SafeText spec.name ∧ ∀ digest ∈ spec.sha1, SafeText digest)
    ⟨fun h => ⟨h.1, h.2⟩, fun h => ⟨h.name, h.sha1⟩⟩

/-- The texts of the `manifest` are safe. -/
structure Manifest.Safe (manifest : Manifest) : Prop where
  kernelMem : SafeText manifest.kernelMem
  mtdPrefix : SafeText manifest.mtdPrefix
  osmem : SafeText manifest.osmem
  additionalCmdline : ∀ text ∈ manifest.additionalCmdline, SafeText text
  skip : ∀ names ∈ manifest.skip, ∀ name ∈ names, SafeText name
  partitions : ∀ spec ∈ manifest.partitions, spec.Safe

instance : DecidablePred Manifest.Safe := fun m =>
  decidable_of_iff (SafeText m.kernelMem ∧ SafeText m.mtdPrefix ∧ SafeText m.osmem ∧
      (∀ text ∈ m.additionalCmdline, SafeText text) ∧
      (∀ names ∈ m.skip, ∀ name ∈ names, SafeText name) ∧ ∀ spec ∈ m.partitions, spec.Safe)
    ⟨fun ⟨h1, h2, h3, h4, h5, h6⟩ => ⟨h1, h2, h3, h4, h5, h6⟩,
      fun h => ⟨h.1, h.2, h.3, h.4, h.5, h.6⟩⟩

/-! ## Objects of headers -/

/-- A field that may be left out, named `name`, is the only one that it adds. -/
lemma mem_optionalField_iff {α : Type} {name : String} {toJson : α → Json} {o : Option α}
    {field : String × Json} :
    field ∈ optionalField name toJson o ↔ ∃ x ∈ o, field = (name, toJson x) := by
  cases o <;> simp [optionalField]

/-- The object of the entry `spec` has the shape of a document: its keys are safe and distinct, and
its values are texts and numbers of 64 bits. -/
lemma PartitionSpec.shaped_toJson (spec : PartitionSpec) (depth : Nat) :
    spec.toJson.Shaped (depth + 1) := by
  have hfields : ∀ field ∈ [("name", .string spec.name),
        ("payloadSize", .number spec.payloadSize.toNat)] ++
      optionalField "sha1" Json.string spec.sha1 ++
      optionalField "partitionSize" (fun n => Json.number n.toNat) spec.partitionSize,
      Json.IsKey field.1 ∧ field.2.Shaped depth := by
    intro field hfield
    simp only [List.cons_append, List.nil_append, List.mem_cons, List.mem_append,
      mem_optionalField_iff] at hfield
    rcases hfield with rfl | rfl | ⟨digest, -, rfl⟩ | ⟨n, -, rfl⟩
    · exact ⟨(by decide : Json.IsKey "name"), .string _⟩
    · exact ⟨(by decide : Json.IsKey "payloadSize"), .number (UInt64.toNat_lt _)⟩
    · exact ⟨(by decide : Json.IsKey "sha1"), .string _⟩
    · exact ⟨(by decide : Json.IsKey "partitionSize"), .number (UInt64.toNat_lt _)⟩
  refine .object (fun field hfield => (hfields field hfield).1) ?_
    fun field hfield => (hfields field hfield).2
  cases spec.sha1 <;> cases spec.partitionSize <;> simp [optionalField]

/-- The table `specs` has the shape of a document, one level deeper than its entries. -/
lemma shaped_tableToJson (specs : List PartitionSpec) (depth : Nat) :
    (tableToJson specs).Shaped (depth + 2) := by
  refine .array fun item hitem => ?_
  obtain ⟨spec, -, rfl⟩ := List.mem_map.1 hitem
  exact spec.shaped_toJson depth

/-- The object of the `manifest` has the shape of a document, whatever its texts are. -/
lemma Manifest.shaped_toJson (manifest : Manifest) (depth : Nat) :
    manifest.toJson.Shaped (depth + 3) := by
  have hfields : ∀ field ∈ manifest.fields ++
      optionalField "additionalCmdline" Json.string manifest.additionalCmdline ++
      optionalField "skip" (fun names => Json.array (names.map Json.string)) manifest.skip ++
      [("partitions", tableToJson manifest.partitions)],
      Json.IsKey field.1 ∧ field.2.Shaped (depth + 2) := by
    intro field hfield
    simp only [BootParameters.fields, List.cons_append, List.nil_append, List.mem_cons,
      List.mem_append, mem_optionalField_iff, List.not_mem_nil, or_false] at hfield
    rcases hfield with rfl | rfl | rfl | rfl | (⟨text, -, rfl⟩ | ⟨names, -, rfl⟩) | rfl
    · exact ⟨(by decide : Json.IsKey "kernelMem"), .string _⟩
    · exact ⟨(by decide : Json.IsKey "setTotalMem"), .boolean _⟩
    · exact ⟨(by decide : Json.IsKey "mtdPrefix"), .string _⟩
    · exact ⟨(by decide : Json.IsKey "osmem"), .string _⟩
    · exact ⟨(by decide : Json.IsKey "additionalCmdline"), .string _⟩
    · refine ⟨(by decide : Json.IsKey "skip"), .array fun item hitem => ?_⟩
      obtain ⟨name, -, rfl⟩ := List.mem_map.1 hitem
      exact .string name
    · exact ⟨(by decide : Json.IsKey "partitions"), shaped_tableToJson _ depth⟩
  refine .object (fun field hfield => (hfields field hfield).1) ?_
    fun field hfield => (hfields field hfield).2
  cases manifest.additionalCmdline <;> cases manifest.skip <;>
    simp [BootParameters.fields, optionalField]

/-! ## Texts of headers -/

/-- The texts of the entry `spec`. -/
def PartitionSpec.texts (spec : PartitionSpec) : List String :=
  spec.name :: spec.sha1.toList

/-- The texts of the manifest `m`. -/
def Manifest.texts (m : Manifest) : List String :=
  [m.kernelMem, m.mtdPrefix, m.osmem] ++ m.additionalCmdline.toList ++ m.skip.getD [] ++
    m.partitions.flatMap PartitionSpec.texts

/-- A `text` in the object of the entry `spec` is one of its own or a key. -/
lemma PartitionSpec.mem_texts_toJson {spec : PartitionSpec} {text : String}
    (h : text ∈ spec.toJson.texts) : Json.IsKey text ∨ text ∈ spec.texts := by
  obtain ⟨field, hfield, rfl | htext⟩ := Json.mem_textsOfFields.1 h
  · exact .inl ((spec.shaped_toJson 0).isKey hfield)
  · simp only [List.cons_append, List.nil_append, List.mem_cons, List.mem_append,
      mem_optionalField_iff] at hfield
    rcases hfield with rfl | rfl | ⟨digest, hdigest, rfl⟩ | ⟨n, -, rfl⟩
    · obtain rfl := List.mem_singleton.1 htext
      exact .inr List.mem_cons_self
    · cases htext
    · obtain rfl := List.mem_singleton.1 htext
      exact .inr (List.mem_cons_of_mem _ (Option.mem_toList.2 hdigest))
    · cases htext

/-- A `text` of the entry `spec` stands in its object. -/
lemma PartitionSpec.mem_texts_toJson_of_mem {spec : PartitionSpec} {text : String}
    (h : text ∈ spec.texts) : text ∈ spec.toJson.texts := by
  refine Json.mem_textsOfFields.2 ?_
  simp only [List.cons_append, List.nil_append, List.mem_cons, List.mem_append,
    mem_optionalField_iff]
  rcases List.mem_cons.1 h with rfl | h
  · exact ⟨_, .inl rfl, .inr (List.mem_singleton_self _)⟩
  · exact ⟨_, .inr (.inr (.inl ⟨text, Option.mem_toList.1 h, rfl⟩)),
      .inr (List.mem_singleton_self _)⟩

/-- The texts of the manifest `m` one by one. -/
lemma Manifest.mem_texts_iff {m : Manifest} {text : String} :
    text ∈ m.texts ↔ text = m.kernelMem ∨ text = m.mtdPrefix ∨ text = m.osmem ∨
      text ∈ m.additionalCmdline ∨ (∃ names ∈ m.skip, text ∈ names) ∨
      ∃ spec ∈ m.partitions, text ∈ spec.texts := by
  cases hskip : m.skip <;> simp [Manifest.texts, hskip]

/-- A `text` in the object of the manifest `m` is one of its own or a key.

**Proof sketch.** A key of an object is one that is read back (`Json.Shaped.isKey`). The values are
gone through field by field, and the table entry by entry (`PartitionSpec.mem_texts_toJson`). -/
lemma Manifest.mem_texts_toJson {m : Manifest} {text : String} (h : text ∈ m.toJson.texts) :
    Json.IsKey text ∨ text ∈ m.texts := by
  obtain ⟨field, hfield, rfl | htext⟩ := Json.mem_textsOfFields.1 h
  · exact .inl ((m.shaped_toJson 0).isKey hfield)
  · rw [mem_texts_iff]
    simp only [BootParameters.fields, List.cons_append, List.nil_append, List.mem_cons,
      List.mem_append, mem_optionalField_iff, List.not_mem_nil, or_false] at hfield
    rcases hfield with rfl | rfl | rfl | rfl | (⟨cmdline, hcmdline, rfl⟩ | ⟨names, hnames, rfl⟩) |
      rfl
    · exact .inr (.inl (List.mem_singleton.1 htext))
    · cases htext
    · exact .inr (.inr (.inl (List.mem_singleton.1 htext)))
    · exact .inr (.inr (.inr (.inl (List.mem_singleton.1 htext))))
    · obtain rfl := List.mem_singleton.1 htext
      exact .inr (.inr (.inr (.inr (.inl hcmdline))))
    · obtain ⟨item, hitem, htext⟩ := Json.mem_textsOfItems.1 htext
      obtain ⟨name, hname, rfl⟩ := List.mem_map.1 hitem
      obtain rfl := List.mem_singleton.1 htext
      exact .inr (.inr (.inr (.inr (.inr (.inl ⟨names, hnames, hname⟩)))))
    · obtain ⟨item, hitem, htext⟩ := Json.mem_textsOfItems.1 htext
      obtain ⟨spec, hspec, rfl⟩ := List.mem_map.1 hitem
      refine (spec.mem_texts_toJson htext).imp_right fun h => ?_
      exact .inr (.inr (.inr (.inr (.inr ⟨spec, hspec, h⟩))))

/-- A `text` of the manifest `m` stands in its object. -/
lemma Manifest.mem_texts_toJson_of_mem {m : Manifest} {text : String} (h : text ∈ m.texts) :
    text ∈ m.toJson.texts := by
  refine Json.mem_textsOfFields.2 ?_
  simp only [BootParameters.fields, List.cons_append, List.nil_append, List.mem_cons,
    List.mem_append, mem_optionalField_iff, List.not_mem_nil, or_false]
  rcases mem_texts_iff.1 h with rfl | rfl | rfl | h | ⟨names, hnames, h⟩ | ⟨spec, hspec, h⟩
  · exact ⟨("kernelMem", .string _), .inl rfl, .inr (List.mem_singleton_self _)⟩
  · exact ⟨("mtdPrefix", .string _), .inr (.inr (.inl rfl)), .inr (List.mem_singleton_self _)⟩
  · exact ⟨("osmem", .string _), .inr (.inr (.inr (.inl rfl))), .inr (List.mem_singleton_self _)⟩
  · exact ⟨_, .inr (.inr (.inr (.inr (.inl (.inl ⟨text, h, rfl⟩))))),
      .inr (List.mem_singleton_self _)⟩
  · refine ⟨_, .inr (.inr (.inr (.inr (.inl (.inr ⟨names, hnames, rfl⟩))))), .inr ?_⟩
    exact Json.mem_textsOfItems.2 ⟨_, List.mem_map_of_mem h, List.mem_singleton_self _⟩
  · refine ⟨_, .inr (.inr (.inr (.inr (.inr rfl)))), .inr ?_⟩
    exact Json.mem_textsOfItems.2
      ⟨_, List.mem_map_of_mem hspec, PartitionSpec.mem_texts_toJson_of_mem h⟩

/-- A `text` of a safe entry is safe. -/
lemma PartitionSpec.Safe.safeText {spec : PartitionSpec} (h : spec.Safe) {text : String}
    (htext : text ∈ spec.texts) : SafeText text := by
  rcases List.mem_cons.1 htext with rfl | htext
  · exact h.name
  · exact h.sha1 text (Option.mem_toList.1 htext)

/-- A `text` of a safe manifest is safe. -/
lemma Manifest.Safe.safeText {m : Manifest} (h : m.Safe) {text : String}
    (htext : text ∈ m.texts) : SafeText text := by
  rcases mem_texts_iff.1 htext with rfl | rfl | rfl | htext | ⟨names, hnames, htext⟩ |
    ⟨spec, hspec, htext⟩
  · exact h.kernelMem
  · exact h.mtdPrefix
  · exact h.osmem
  · exact h.additionalCmdline text htext
  · exact h.skip names hnames text htext
  · exact (h.partitions spec hspec).safeText htext

/-! ## Records -/

namespace Decode

/-- The `fields` of an object are read one after the other by `put`. -/
private lemma record_toYaml {δ : Type} (name : String) (put : δ → String → Value → Decoded δ)
    (empty : δ) (fields : List (String × Json)) :
    record name put empty (Json.object fields).toYaml =
      fields.foldlM (fun draft field => put draft field.1 field.2.toYaml) empty := by
  show (Json.fieldsToYaml fields).foldlM (entry put) empty = _
  induction fields generalizing empty with
  | nil => rfl
  | cons field fields ih =>
    have hkey : textAs .fieldName (.string field.1) = .ok field.1 := rfl
    rw [Json.fieldsToYaml, List.foldlM_cons, List.foldlM_cons]
    simp only [entry, hkey, ih]
    rfl

/-- The items `xs` of an array are read one after the other, if each of them is read back. -/
lemma items_toYaml {α : Type} (read : Value → Decoded α) (toJson : α → Json) {xs : List α}
    (h : ∀ x ∈ xs, read (toJson x).toYaml = .ok x) :
    items read (Json.array (xs.map toJson)).toYaml = .ok xs := by
  show (Json.itemsToYaml (xs.map toJson)).mapM read = _
  induction xs with
  | nil => rfl
  | cons x xs ih =>
    rw [List.forall_mem_cons] at h
    rw [List.map_cons, Json.itemsToYaml, List.mapM_cons, h.1, ih h.2]
    rfl

/-- A value `x` that is read is passed on. -/
private lemma ok_bind {α β : Type} (x : α) (f : α → Decoded β) :
    ((.ok x : Decoded α) >>= f) = f x := rfl

/-- The text `s` is read back. -/
private lemma text_toYaml (s : String) : text (Json.string s).toYaml = .ok s := rfl

/-- The truth value `b` is read back. -/
private lemma boolean_toYaml (b : Bool) : boolean (Json.boolean b).toYaml = .ok b := rfl

/-- The number `n` of 64 bits is read back. -/
private lemma unsigned_toYaml (n : UInt64) : unsigned (Json.number n.toNat).toYaml = .ok n := by
  simp [Json.toYaml, unsigned, Value.untagged]

/-- The digest `s` is read back whatever it is spelled like, since it stands between quotes. -/
private lemma digest_toYaml (s : String) : digest (Json.string s).toYaml = .ok (some s) := rfl

/-- A `value` that is given, and read as `x`, is not left out. -/
private lemma optional_toYaml {α : Type} {read : Value → Decoded α} {value : Json} {x : α}
    (h : read value.toYaml = .ok x) : optional read value.toYaml = .ok (some x) := by
  cases value <;> simp_all [optional, Json.toYaml, Except.map]

/-- An open `field` takes the value `x` that is read. -/
private lemma fill_ok {α : Type} (field : String) (x : α) :
    fill field none (.ok x) = .ok (some x) := rfl

/-- The entry of the table is read back, with or without a digest and a size of its partition. -/
lemma spec_toYaml (entry : PartitionSpec) : spec entry.toJson.toYaml = .ok entry := by
  rw [spec, PartitionSpec.toJson, record_toYaml]
  obtain ⟨name, size, sha1, partitionSize⟩ := entry
  cases sha1 <;> cases partitionSize <;>
    simp [optionalField, SpecDraft.put, text_toYaml, unsigned_toYaml, digest_toYaml,
      optional_toYaml (unsigned_toYaml _), fill_ok, ok_bind, SpecDraft.finish, require]

/-- The manifest `m` is read back, with its table entry by entry (`spec_toYaml`). -/
private lemma manifest_toYaml (m : Manifest) : manifest m.toJson.toYaml = .ok m := by
  have hskip : ∀ names : List String, items text (Json.array (names.map Json.string)).toYaml =
      .ok names := fun names => items_toYaml text Json.string fun s _ => text_toYaml s
  have htable : table (tableToJson m.partitions).toYaml = .ok m.partitions :=
    items_toYaml spec PartitionSpec.toJson fun entry _ => spec_toYaml entry
  rw [manifest, Manifest.toJson, record_toYaml]
  obtain ⟨⟨kernelMem, setTotalMem, mtdPrefix, osmem⟩, cmdline, skip, partitions⟩ := m
  cases cmdline <;> cases skip <;>
    simp [optionalField, BootParameters.fields, ManifestDraft.put, text_toYaml, boolean_toYaml,
      optional_toYaml (text_toYaml _), optional_toYaml (hskip _), htable, fill_ok, ok_bind,
      ManifestDraft.finish, require]

end Decode

/-! ## Headers -/

/-- A `key` of an object is found in its value. -/
private lemma isSome_get?_toYaml {fields : List (String × Json)} {key : String}
    (h : key ∈ fields.map (·.1)) : ((Json.object fields).toYaml.get? key).isSome := by
  have hentry : ∃ entry ∈ Json.fieldsToYaml fields, entry.1.isString key := by
    induction fields with
    | nil => cases h
    | cons field fields ih =>
      rw [List.map_cons, List.mem_cons] at h
      rcases h with rfl | h
      · exact ⟨_, List.mem_cons_self, by simp [Value.isString]⟩
      · obtain ⟨entry, hmem, hkey⟩ := ih h
        exact ⟨entry, List.mem_cons_of_mem _ hmem, hkey⟩
  show (((Json.fieldsToYaml fields).find? (·.1.isString key)).map (·.2)).isSome
  rw [Option.isSome_map, List.find?_isSome]
  exact hentry

/-- The encoded text of an object with legible texts means the object. There is no forbidden
character in it (`Yaml.Value.ofText?_write`), and folding leaves it as it is
(`Json.fold?_of_texts`). -/
lemma Yaml.Value.ofText?_write_of_legible (layout : Json.Layout) {fields : List (String × Json)}
    (h : Json.Shaped maxDepth (.object fields))
    (hlegible : ∀ text ∈ (Json.object fields).texts, Legible text) :
    ofText? (String.ofList (Json.write layout 0 (.object fields))).toUTF8 =
      some (Json.object fields).toYaml := by
  rw [ofText?_write layout h fun text htext => (hlegible text htext).1,
    Json.fold?_of_texts _ fun text htext => (hlegible text htext).2]
  rfl

/-- **The value of a header means the manifest** `m` that it was written for. The key of a table
shows its shape, and `manifest_toYaml` reads it back. -/
theorem ManifestDocument.ofValue_toJson (m : Manifest) :
    ofValue m.toJson.toYaml = .ok (.bundle m) := by
  have htable : (m.toJson.toYaml.get? "partitions").isSome :=
    isSome_get?_toYaml (by simp)
  rw [ofValue, if_pos htable, Decode.manifest_toYaml]
  rfl

/-- A header with legible texts is read back up to the check of the names in its table. The keys in
it are safe, and so legible (`Yaml.legible_of_safeText`). -/
lemma ManifestDocument.ofText_header_of_legible {m : Manifest}
    (h : ∀ text ∈ m.texts, Legible text) :
    ofText m.header = (ManifestDocument.bundle m).requireDistinct := by
  have hlegible : ∀ text ∈ m.toJson.texts, Legible text := by
    intro text htext
    rcases Manifest.mem_texts_toJson htext with hkey | htext
    · exact legible_of_safeText hkey.1
    · exact h text htext
  have hvalue : Value.ofText? m.header = some m.toJson.toYaml :=
    Value.ofText?_write_of_legible .compact (m.shaped_toJson 125) hlegible
  rw [ofText, hvalue]
  simp only [ofValue_toJson]
  rfl

/-- A header with safe texts is read back up to the check of the names in its table: safe texts are
legible. -/
lemma ManifestDocument.ofText_header_eq {m : Manifest} (h : m.Safe) :
    ofText m.header = (ManifestDocument.bundle m).requireDistinct :=
  ofText_header_of_legible fun _ htext => legible_of_safeText (h.safeText htext)

/-! ## Repeated names -/

section Repeated

variable {before : List String} {specs : List PartitionSpec}

/-- No name is found among `specs` if their names are distinct and none of them is in `before`. -/
lemma firstRepeated_eq_none_iff :
    firstRepeated before specs = none ↔
      (specs.map (·.name)).Nodup ∧ ∀ spec ∈ specs, spec.name ∉ before := by
  induction specs generalizing before with
  | nil => simp [firstRepeated]
  | cons spec specs ih =>
    rw [firstRepeated, List.map_cons, List.nodup_cons, List.forall_mem_cons]
    split
    · rename_i hmem
      simp [hmem]
    · rename_i hmem
      rw [ih]
      simp only [List.mem_cons, not_or, List.mem_map, not_exists, not_and]
      grind

/-- The `name` that is found stands in an entry `spec` behind entries with distinct names, one of
which has it unless it came `before`.

**Proof sketch.** Induction on `specs`. If the name of the first entry came before, it is the one
that is found; if not, it comes before the others from there on. -/
lemma exists_of_firstRepeated_eq_some {name : String}
    (h : firstRepeated before specs = some name) :
    ∃ front spec back, specs = front ++ spec :: back ∧ spec.name = name ∧
      (front.map (·.name)).Nodup ∧ (∀ other ∈ front, other.name ∉ before) ∧
      (name ∈ before ∨ name ∈ front.map (·.name)) := by
  induction specs generalizing before with
  | nil => cases h
  | cons spec specs ih =>
    rw [firstRepeated] at h
    split at h
    · rename_i hmem
      obtain rfl := Option.some.inj h
      exact ⟨[], spec, specs, rfl, rfl, List.nodup_nil, by simp, .inl hmem⟩
    · rename_i hmem
      obtain ⟨front, repeated, back, rfl, hname, hdistinct, hfresh, hfound⟩ := ih h
      refine ⟨spec :: front, repeated, back, rfl, hname, ?_, ?_, ?_⟩
      · refine List.nodup_cons.2 ⟨fun hspec => ?_, hdistinct⟩
        obtain ⟨other, hother, heq⟩ := List.mem_map.1 hspec
        exact hfresh other hother (heq ▸ List.mem_cons_self)
      · rw [List.forall_mem_cons]
        exact ⟨hmem, fun other hother hbefore =>
          hfresh other hother (List.mem_cons_of_mem _ hbefore)⟩
      · rcases hfound with hfound | hfound
        · rcases List.mem_cons.1 hfound with rfl | hfound
          · exact .inr List.mem_cons_self
          · exact .inl hfound
        · exact .inr (List.mem_cons_of_mem _ hfound)

end Repeated

/-- **A header is read back if the names in its table are distinct**, whoever wrote it and however
its texts are spelled: then no name is found that stands twice (`firstRepeated_eq_none_iff`). -/
theorem ManifestDocument.ofText_header_of_nodup {m : Manifest} (h : m.Safe)
    (hdistinct : (m.partitions.map (·.name)).Nodup) : ofText m.header = .ok (.bundle m) := by
  have hnone : firstRepeated [] m.partitions = none :=
    firstRepeated_eq_none_iff.2 ⟨hdistinct, by simp⟩
  rw [ofText_header_eq h, requireDistinct]
  simp [partitions, hnone]

/-- **A header is read back if the names in its table are distinct**, whoever wrote it and however
its texts are spelled. Otherwise it is refused, with the name of the first entry `spec` that has the
name of an entry before it.

**Proof sketch.** The text means the manifest (`ManifestDocument.ofText_header_eq`), so only the
check of the names decides. The name that it finds is the first that stands before
(`exists_of_firstRepeated_eq_some`); if the names are not distinct, it finds one
(`firstRepeated_eq_none_iff`). -/
theorem ManifestDocument.ofText_header {m : Manifest} (h : m.Safe) :
    ((m.partitions.map (·.name)).Nodup → ofText m.header = .ok (.bundle m)) ∧
      (¬(m.partitions.map (·.name)).Nodup →
        ∃ front spec back, m.partitions = front ++ spec :: back ∧
          (front.map (·.name)).Nodup ∧ spec.name ∈ front.map (·.name) ∧
          ofText m.header = .error (.repeatedName spec.name)) := by
  refine ⟨ofText_header_of_nodup h, fun hnot => ?_⟩
  have hrepeats : firstRepeated [] m.partitions ≠ none := fun hnone =>
    hnot (firstRepeated_eq_none_iff.1 hnone).1
  obtain ⟨name, hrepeated⟩ := Option.ne_none_iff_exists'.1 hrepeats
  obtain ⟨front, spec, back, hspecs, rfl, hdistinct, -, hfound⟩ :=
    exists_of_firstRepeated_eq_some hrepeated
  refine ⟨front, spec, back, hspecs, hdistinct, by simpa using hfound, ?_⟩
  rw [ofText_header_eq h, requireDistinct]
  simp [partitions, hrepeated]

/-- A manifest whose texts look like other values, are empty, or have to be escaped. -/
def Manifest.lookalike : Manifest where
  kernelMem := "\x7b\"a\": [1, '2']\x7d # \\\n\x01"
  setTotalMem := false
  mtdPrefix := "null"
  osmem := ""
  additionalCmdline := some "- ? \t~"
  skip := some []
  partitions := [⟨"true", 0xffffffffffffffff, some "00000123", some 0⟩,
    ⟨"1e5", 0, some "", none⟩, ⟨"\u00fc", 1, none, some 0xffffffffffffffff⟩]

/-- `Manifest.lookalike` is read back; with its table written twice it is refused. -/
theorem ManifestDocument.ofText_header_lookalike :
    Manifest.lookalike.Safe ∧ (Manifest.lookalike.partitions.map (·.name)).Nodup ∧
      ofText Manifest.lookalike.header = .ok (.bundle Manifest.lookalike) ∧
      let twice : Manifest := { Manifest.lookalike with
        partitions := Manifest.lookalike.partitions ++ Manifest.lookalike.partitions }
      twice.Safe ∧ ¬(twice.partitions.map (·.name)).Nodup ∧
        ∃ front spec back, twice.partitions = front ++ spec :: back ∧
          (front.map (·.name)).Nodup ∧ spec.name ∈ front.map (·.name) ∧
          ofText twice.header = .error (.repeatedName spec.name) :=
  ⟨by decide, by decide, (ofText_header (by decide)).1 (by decide), by decide, by decide,
    (ofText_header (by decide)).2 (by decide)⟩

end FirmwareBundle
