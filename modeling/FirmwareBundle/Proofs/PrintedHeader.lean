import FirmwareBundle.Command.Run
import FirmwareBundle.Proofs.Delivery
import FirmwareBundle.Proofs.HeaderShapes
import FirmwareBundle.Proofs.MovedRecords
/-!
# Printed headers

The header of a bundle is printed as indented text. Whatever spelling the header had, the text that
is printed is a header of the same document, provided that the texts in it are safe. So it can stand
in the place of the header, and the records behind it are scanned as they were.

## Main definitions

* `FirmwareBundle.ManifestDocument.texts` — the texts in a document.

## Main results

* `FirmwareBundle.Yaml.Value.ofText?_write_append` — a last break makes no difference to the text of
  an object.
* `FirmwareBundle.ManifestDocument.ofText_printed` — a document is read back from the text that is
  printed for it.
* `FirmwareBundle.ManifestDocument.rom_ne_nil_of_ofValue` — a device descriptor that was read has a
  memory chip.
* `FirmwareBundle.readManifest_printed` — the text that is printed for a header can stand in its
  place.
-/

namespace FirmwareBundle

open Yaml

/-! ## Texts of a document -/

/-- The texts of all memory chips of `descriptor`. -/
def DeviceDescriptor.texts (descriptor : DeviceDescriptor) : List String :=
  descriptor.rom.flatMap fun chip => chip.partitions.flatMap PartitionSpec.texts

/-- The texts in a document, in all its tables and beside them. -/
def ManifestDocument.texts : ManifestDocument → List String
  | .bundle manifest => manifest.texts
  | .device descriptor => descriptor.texts

/-- A `text` in the object of a table is one of those of its entries `specs` or a key. -/
private lemma mem_texts_tableToJson {specs : List PartitionSpec} {text : String}
    (h : text ∈ (tableToJson specs).texts) :
    Json.IsKey text ∨ text ∈ specs.flatMap PartitionSpec.texts := by
  obtain ⟨item, hitem, htext⟩ := Json.mem_textsOfItems.1 h
  obtain ⟨spec, hspec, rfl⟩ := List.mem_map.1 hitem
  exact (spec.mem_texts_toJson htext).imp_right fun h => List.mem_flatMap.2 ⟨spec, hspec, h⟩

/-- A `text` in the object of a device `descriptor` is one of its own or a key. -/
lemma DeviceDescriptor.mem_texts_toJson {descriptor : DeviceDescriptor} {text : String}
    (h : text ∈ descriptor.toJson.texts) : Json.IsKey text ∨ text ∈ descriptor.texts := by
  obtain ⟨field, hfield, rfl | htext⟩ := Json.mem_textsOfFields.1 h
  · exact .inl ((descriptor.shaped_toJson 0).isKey hfield)
  obtain rfl := List.mem_singleton.1 hfield
  obtain ⟨item, hitem, htext⟩ := Json.mem_textsOfItems.1 htext
  obtain ⟨chip, hchip, rfl⟩ := List.mem_map.1 hitem
  obtain ⟨field, hfield, rfl | htext⟩ := Json.mem_textsOfFields.1 htext
  · obtain rfl := List.mem_singleton.1 hfield
    exact .inl (by decide : Json.IsKey "partitions")
  · obtain rfl := List.mem_singleton.1 hfield
    exact (mem_texts_tableToJson htext).imp_right fun h => List.mem_flatMap.2 ⟨chip, hchip, h⟩

/-- A `text` in the object of a `document` with safe texts is safe: keys are. -/
lemma ManifestDocument.safeText_of_mem_texts_toJson {document : ManifestDocument}
    (h : ∀ text ∈ document.texts, SafeText text) {text : String}
    (htext : text ∈ document.toJson.texts) : SafeText text := by
  have hown : Json.IsKey text ∨ text ∈ document.texts := by
    cases document with
    | bundle manifest => exact Manifest.mem_texts_toJson htext
    | device descriptor => exact DeviceDescriptor.mem_texts_toJson htext
  exact hown.elim (fun hkey => hkey.1) (h text)

/-! ## Text that is printed -/

/-- **A last break makes no difference**: the text of an object with legible texts means the object
with or without it. Both have the same tokens (`Yaml.tokens?_write_append`,
`Yaml.tokens?_write`). -/
theorem Yaml.Value.ofText?_write_append (layout : Json.Layout) {fields : List (String × Json)}
    (h : Json.Shaped maxDepth (.object fields))
    (hlegible : ∀ text ∈ (Json.object fields).texts, Legible text) {ending : List Char}
    (hending : ending = [] ∨ ending = ['\n']) :
    ofText? (String.ofList (Json.write layout 0 (.object fields) ++ ending)).toUTF8 =
      some (Json.object fields).toYaml := by
  have hallowed : (Json.write layout 0 (.object fields)).all isAllowed = true :=
    Json.all_isAllowed_write_iff.2 fun text htext => (hlegible text htext).1
  have hallowed' : (Json.write layout 0 (.object fields) ++ ending).all isAllowed = true := by
    rw [List.all_append, hallowed, Bool.true_and]
    rcases hending with rfl | rfl <;> decide
  have hwhole := ofText?_write_of_legible layout h hlegible
  rw [ofText?, fromUTF8?_toUTF8, Option.bind_eq_bind, Option.bind_some, ofString?,
    String.toList_ofList] at hwhole ⊢
  rwa [tokens?_write_append layout h hending hallowed', ← tokens?_write layout h hallowed]

namespace ManifestDocument

variable {document : ManifestDocument}

/-- The value of a header means the `document` that it was written for, if that has a memory chip or
is a manifest. -/
lemma ofValue_toJson_document
    (hrom : ∀ descriptor, document = .device descriptor → descriptor.rom ≠ []) :
    ofValue document.toJson.toYaml = .ok document := by
  cases document with
  | bundle manifest => exact ofValue_toJson manifest
  | device descriptor =>
    have hfields : (descriptor.toJson).toYaml.HasFields _ := Json.hasFields_singleton ..
    have hchips : Decode.items Decode.romDescriptor
        (Json.array (descriptor.rom.map RomDescriptor.toJson)).toYaml = .ok descriptor.rom :=
      Decode.items_toYaml _ _ fun chip _ => Decode.romDescriptor_toYaml chip
    have hread := (Decode.deviceDescriptor_eq_ok_iff hfields (List.mem_singleton_self _)).2 hchips
    show ofValue descriptor.toJson.toYaml = _
    rw [ofValue_of_notMem hfields (by simp) (by simp), hread]
    simp [bind, Except.bind, hrom descriptor rfl, pure, Except.pure]

/-- The text that is printed for `document`, perhaps with a last break, as characters. -/
lemma printed_eq (document : ManifestDocument) (ending : String) :
    document.toJson.pretty ++ ending =
      String.ofList (Json.write .indented 0 document.toJson ++ ending.toList) := by
  apply String.toList_inj.1
  rw [String.toList_append, Json.pretty, String.toList_ofList, String.toList_ofList]

/-- **A document is read back from the text that is printed for it**, with or without a last break
as its `ending`, if its texts are safe and the names in its table are distinct.

**Proof sketch.** The text means the object of `document` (`Yaml.Value.ofText?_write_append`), which
means the document (`ManifestDocument.ofValue_toJson_document`), and the check of the names lets it
pass. -/
theorem ofText_printed (hsafe : ∀ text ∈ document.texts, SafeText text)
    (hrom : ∀ descriptor, document = .device descriptor → descriptor.rom ≠ [])
    (hdistinct : (document.partitions.map (·.name)).Nodup) {ending : String}
    (hending : ending.toList = [] ∨ ending.toList = ['\n']) :
    ofText (document.toJson.pretty ++ ending).toUTF8 = .ok document := by
  have hlegible : ∀ text ∈ document.toJson.texts, Legible text := fun text htext =>
    legible_of_safeText (safeText_of_mem_texts_toJson hsafe htext)
  have hvalue : Value.ofText? (document.toJson.pretty ++ ending).toUTF8 =
      some document.toJson.toYaml := by
    rw [printed_eq]
    cases document with
    | bundle manifest =>
      exact Value.ofText?_write_append .indented (manifest.shaped_toJson 125) hlegible hending
    | device descriptor =>
      exact Value.ofText?_write_append .indented (descriptor.shaped_toJson 123) hlegible hending
  rw [ofText, hvalue]
  simp only [ofValue_toJson_document hrom]
  exact requireDistinct_eq_ok_iff.2 ⟨hdistinct, rfl⟩

/-- There is no zero byte in a text that is printed, whatever the texts in `document` are.

**Proof sketch.** A zero character in a text is escaped, and there is none in what is written around
the texts (`Json.ne_zero_of_mem_write`). The encoding of any other character has no zero byte
(`toUTF8_ne_zero`). -/
lemma printed_ne_zero (document : ManifestDocument) {ending : String}
    (hending : ending.toList = [] ∨ ending.toList = ['\n']) :
    ∀ i (hi : i < (document.toJson.pretty ++ ending).toUTF8.size),
      (document.toJson.pretty ++ ending).toUTF8[i] ≠ 0 := by
  rw [printed_eq]
  apply toUTF8_ne_zero
  intro c hc
  rcases List.mem_append.1 hc with hc | hc
  · exact Json.ne_zero_of_mem_write hc
  · rcases hending with hnil | hbreak
    · rw [hnil] at hc
      cases hc
    · rw [hbreak] at hc
      obtain rfl := List.mem_singleton.1 hc
      decide

/-- A device `descriptor` that was read has a memory chip. -/
theorem rom_ne_nil_of_ofValue {value : Value} {descriptor : DeviceDescriptor}
    (h : ofValue value = .ok (.device descriptor)) : descriptor.rom ≠ [] := by
  rw [ofValue] at h
  split at h
  · cases hmanifest : Decode.manifest value <;> rw [hmanifest] at h <;> cases h
  split at h
  · obtain ⟨read, -, hread⟩ := bind_eq_ok_iff.1 h
    split at hread
    · cases hread
    · rename_i hrom
      obtain rfl := ManifestDocument.device.inj (Except.ok.inj hread)
      simpa using hrom
  · cases h

end ManifestDocument

/-! ## Headers that are replaced -/

/-- **The text that is printed for a header can stand in its place.** There is no zero byte in it,
with or without a last break. It is a header of the same `document`, and what a scan finds in the
records behind it is the same as before: the steps, the sink, the outcomes and the error, apart from
the places that are told.

**Proof sketch.** The document was read, so the names in its table are distinct, and it has a memory
chip if it is a device descriptor. These are the conditions for reading it back
(`ManifestDocument.ofText_printed`). Both bundles have the same document and the same bytes behind
their headers, so `placeless_scan` applies. -/
theorem readManifest_printed {data : ByteArray} {document : ManifestDocument} {offset : Nat}
    (h : readManifest data = .ok (document, offset))
    (hsafe : ∀ text ∈ document.texts, SafeText text) :
    (∀ files file, files.read file = .ok data →
      (runManifest files file).stdout = document.toJson.pretty ++ "\n") ∧
    ∀ printed ∈ [document.toJson.pretty, document.toJson.pretty ++ "\n"],
      (∀ i (hi : i < printed.toUTF8.size), printed.toUTF8[i] ≠ 0) ∧
      ManifestDocument.ofText printed.toUTF8 = .ok document ∧
      let replaced := printed.toUTF8 ++ (⟨#[0]⟩ ++ data.extract offset data.size)
      readManifest replaced = .ok (document, printed.toUTF8.size + 1) ∧
      ∀ {σ : Type} (sink : Sink σ) (state : σ),
        ((scan sink replaced state).map fun report => (report.shape, report.outcomes)).placeless =
          ((scan sink data state).map fun report => (report.shape, report.outcomes)).placeless := by
  have hrom : ∀ descriptor, document = .device descriptor → descriptor.rom ≠ [] := by
    rintro descriptor rfl
    obtain ⟨length, -, htext, -⟩ := readManifest_eq_ok_iff.1 h
    rw [ManifestDocument.ofText] at htext
    split at htext
    · cases htext
    · obtain ⟨read, hvalue, hsame⟩ := bind_eq_ok_iff.1 htext
      obtain ⟨-, rfl⟩ := ManifestDocument.requireDistinct_eq_ok_iff.1 hsame
      exact ManifestDocument.rom_ne_nil_of_ofValue hvalue
  have hdistinct := nodup_names_of_readManifest h
  constructor
  · intro files file hfile
    rw [runManifest, hfile]
    simp only [h]
    rfl
  · intro printed hprinted
    obtain ⟨ending, hending, rfl⟩ : ∃ ending : String,
        (ending.toList = [] ∨ ending.toList = ['\n']) ∧
          printed = document.toJson.pretty ++ ending := by
      rcases List.mem_pair.1 hprinted with rfl | rfl
      · exact ⟨"", .inl rfl, by rw [String.append_empty]⟩
      · exact ⟨"\n", .inr rfl, rfl⟩
    have hzero := document.printed_ne_zero hending
    have hread := ManifestDocument.ofText_printed hsafe hrom hdistinct hending
    have hreplaced := readManifest_append hzero hread (data.extract offset data.size)
    refine ⟨hzero, hread, hreplaced, ?_⟩
    intro σ sink state
    exact placeless_scan h hreplaced (extract_records _ _)

/-- A header of two memory chips, with the short name of a length, a number in hexadecimal digits, a
digest without quotes, a key that nothing reads, and a comment. -/
def twoChipsText : String :=
  "rom:\n- partitions: [{name: a, size: 0x2, sha1: 00123456, note: x}]\n- {} # empty\n"

/-- What that header says. -/
def twoChipsDocument : ManifestDocument :=
  .device ⟨[⟨[⟨"a", 2, some "00123456", none⟩]⟩, ⟨[]⟩]⟩

/-- The printed text of `twoChipsDocument` can stand in the place of its header. -/
theorem readManifest_printed_twoChips :
    let data := twoChipsText.toUTF8 ++ (⟨#[0]⟩ ++ Record.encode ⟨#[7, 0]⟩)
    readManifest data = .ok (twoChipsDocument, twoChipsText.toUTF8.size + 1) ∧
      (∀ text ∈ twoChipsDocument.texts, SafeText text) ∧
      readManifest (twoChipsDocument.toJson.pretty.toUTF8 ++
          (⟨#[0]⟩ ++ Record.encode ⟨#[7, 0]⟩)) =
        .ok (twoChipsDocument, twoChipsDocument.toJson.pretty.toUTF8.size + 1) := by
  intro data
  have hread : ManifestDocument.ofText twoChipsText.toUTF8 = .ok twoChipsDocument := by
    rw [← toOption_eq_some_iff]
    decide +kernel
  have hzero : ∀ i (hi : i < twoChipsText.toUTF8.size), twoChipsText.toUTF8[i] ≠ 0 := by
    decide +kernel
  have hmanifest := readManifest_append hzero hread (Record.encode ⟨#[7, 0]⟩)
  have hsafe : ∀ text ∈ twoChipsDocument.texts, SafeText text := by decide
  obtain ⟨-, hprinted⟩ := readManifest_printed hmanifest hsafe
  obtain ⟨-, -, hreplaced, -⟩ := hprinted _ List.mem_cons_self
  rw [extract_records] at hreplaced
  exact ⟨hmanifest, hsafe, hreplaced⟩

end FirmwareBundle
