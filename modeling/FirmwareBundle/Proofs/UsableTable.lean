import FirmwareBundle.Proofs.PrintedHeader
/-!
# Tables that can be used

The names in the table of a document that was read are distinct, and a device descriptor that was
read has a memory chip, whose table this is. A document whose table repeats a name is refused with
the first name that does. The tables of the other memory chips are not looked at.

## Main definitions

* `FirmwareBundle.ManifestDocument.Means` — a value means a document of the shape that its keys
  show.

## Main results

* `FirmwareBundle.exists_firstRepeated_of_not_nodup` — the entry whose name is found to be repeated.
* `FirmwareBundle.ManifestDocument.ofText_eq_ok_iff` — the documents that are read from a text.
* `FirmwareBundle.ManifestDocument.ofText_table` — the tables of documents that are read, and those
  that are refused.
-/

namespace FirmwareBundle

open Yaml

/-! ## The first repeated name -/

/-- **The name that is found to be repeated** in the table `specs` is that of the entry at the
smallest index `i` with the name of an earlier entry.

**Proof sketch.** The entry stands behind a part `front` of the table with distinct names, one of
which it has (`exists_of_firstRepeated_eq_some`). So its index is the length of `front`, and no
smaller index will do. -/
theorem exists_firstRepeated_of_not_nodup {specs : List PartitionSpec}
    (h : ¬(specs.map (·.name)).Nodup) :
    ∃ (i : Nat) (hi : i < specs.length),
      (∃ (j : Nat) (hj : j < i), specs[j].name = specs[i].name) ∧
      (∀ (j k : Nat) (hjk : j < k) (hk : k < i), specs[j].name ≠ specs[k].name) ∧
      firstRepeated [] specs = some specs[i].name := by
  have hrepeats : firstRepeated [] specs ≠ none := fun hnone =>
    h (firstRepeated_eq_none_iff.1 hnone).1
  obtain ⟨name, hrepeated⟩ := Option.ne_none_iff_exists'.1 hrepeats
  obtain ⟨front, spec, back, rfl, rfl, hdistinct, -, hfound⟩ :=
    exists_of_firstRepeated_eq_some hrepeated
  have hi : front.length < (front ++ spec :: back).length := by simp
  have hspec : (front ++ spec :: back)[front.length] = spec := by simp
  have hfront : ∀ j (hj : j < front.length) (hlt : j < (front ++ spec :: back).length),
      (front ++ spec :: back)[j] = front[j] := fun j hj _ => List.getElem_append_left hj
  refine ⟨front.length, hi, ?_, ?_, by rw [hspec, hrepeated]⟩
  · obtain ⟨other, hother, hname⟩ := List.mem_map.1 (hfound.resolve_left List.not_mem_nil)
    obtain ⟨j, hj, rfl⟩ := List.mem_iff_getElem.1 hother
    exact ⟨j, hj, by rw [hspec, hfront j hj, hname]⟩
  · intro j k hjk hk
    rw [hfront k hk, hfront j (Nat.lt_trans hjk hk)]
    have hlt : k < (front.map (·.name)).length := by rwa [List.length_map]
    have hne := List.pairwise_iff_getElem.1 hdistinct j k (Nat.lt_trans hjk hlt) hlt hjk
    rwa [List.getElem_map, List.getElem_map] at hne

/-! ## Documents -/

namespace ManifestDocument

/-- The `value` means a document of the shape that its keys show. The document may be a device
descriptor without memory chips. -/
inductive Means (value : Value) : ManifestDocument → Prop where
  | bundle {manifest : Manifest} (table : (value.get? "partitions").isSome)
      (read : Decode.manifest value = .ok manifest) : Means value (.bundle manifest)
  | device {descriptor : DeviceDescriptor} (no_table : value.get? "partitions" = none)
      (rom : (value.get? "rom").isSome)
      (read : Decode.deviceDescriptor value = .ok descriptor) : Means value (.device descriptor)

variable {value : Value} {document : ManifestDocument}

/-- The `value` is read as the `document` that it means, unless that is a device descriptor without
memory chips.

**Proof sketch.** The reader looks at the same two keys as `ManifestDocument.Means`, and refuses a
device descriptor without chips (`ManifestDocument.rom_ne_nil_of_ofValue`). -/
lemma ofValue_eq_ok_iff :
    ofValue value = .ok document ↔ Means value document ∧
      ∀ descriptor, document = .device descriptor → descriptor.rom ≠ [] := by
  constructor
  · intro h
    refine ⟨?_, fun descriptor hdevice => rom_ne_nil_of_ofValue (hdevice ▸ h)⟩
    rw [ofValue] at h
    split at h
    · rename_i htable
      obtain ⟨manifest, hread, rfl⟩ := map_eq_ok_iff.1 h
      exact .bundle htable hread
    split at h
    · rename_i htable hrom
      obtain ⟨descriptor, hread, hdevice⟩ := bind_eq_ok_iff.1 h
      split at hdevice
      · cases hdevice
      · obtain rfl := Except.ok.inj hdevice
        exact .device (Option.not_isSome_iff_eq_none.1 htable) hrom hread
    · cases h
  · rintro ⟨hmeans, hchips⟩
    cases hmeans with
    | bundle table read =>
      rw [ofValue, if_pos table, read]
      rfl
    | @device descriptor no_table rom read =>
      have hchips : descriptor.rom.isEmpty = false := by simpa using hchips descriptor rfl
      rw [ofValue, no_table, if_neg (by simp), if_pos rom, read]
      simp only [bind, Except.bind, hchips]
      rfl

variable {text : ByteArray}

/-- **The documents that are read from a text**: the `text` means the `document`, which has a memory
chip or is a manifest, and the names in its table are distinct.

**Proof sketch.** A text without a value is refused. Its value is read as the document that it means
(`ManifestDocument.ofValue_eq_ok_iff`), which is kept if the names are distinct
(`ManifestDocument.requireDistinct_eq_ok_iff`). -/
theorem ofText_eq_ok_iff :
    ofText text = .ok document ↔ (∃ value, Value.ofText? text = some value ∧ Means value document) ∧
      (∀ descriptor, document = .device descriptor → descriptor.rom ≠ []) ∧
      (document.partitions.map (·.name)).Nodup := by
  rw [ofText]
  cases Value.ofText? text with
  | none => simp
  | some value =>
    simp only [Option.some.injEq, exists_eq_left']
    rw [← and_assoc, ← ofValue_eq_ok_iff]
    constructor
    · intro h
      obtain ⟨read, hread, hdistinct⟩ := bind_eq_ok_iff.1 h
      obtain ⟨hnodup, rfl⟩ := requireDistinct_eq_ok_iff.1 hdistinct
      exact ⟨hread, hnodup⟩
    · rintro ⟨hread, hnodup⟩
      exact bind_eq_ok_iff.2 ⟨document, hread, requireDistinct_eq_ok_iff.2 ⟨hnodup, rfl⟩⟩

/-- **The tables of documents.** In a `document` that is read the names are distinct, and the table
of a device descriptor is that of its first memory chip, which there is.

A `text` that means a document, with a memory chip if it is a device descriptor, is read if and only
if the names in its table are distinct, whatever the names in the tables of other chips are.
Otherwise the fault names the entry at the smallest index `i` that has the name of an earlier one.

**Proof sketch.** By `ManifestDocument.ofText_eq_ok_iff` only the check of the names is left for a
text that means a document, and `exists_firstRepeated_of_not_nodup` says which name it finds. The
table of a device descriptor is that of its first chip by definition. -/
theorem ofText_table (text : ByteArray) :
    (∀ document, ofText text = .ok document →
      (document.partitions.map (·.name)).Nodup ∧
      ∀ descriptor, document = .device descriptor →
        ∃ chip chips, descriptor.rom = chip :: chips ∧ document.partitions = chip.partitions) ∧
    ∀ value document, Value.ofText? text = some value → Means value document →
      (∀ descriptor, document = .device descriptor → descriptor.rom ≠ []) →
      (ofText text = .ok document ↔ (document.partitions.map (·.name)).Nodup) ∧
      (∀ chip chips, document = .device ⟨chip :: chips⟩ →
        (chip.partitions.map (·.name)).Nodup → ofText text = .ok document) ∧
      (¬(document.partitions.map (·.name)).Nodup →
        ∃ (i : Nat) (hi : i < document.partitions.length),
          (∃ (j : Nat) (hj : j < i), document.partitions[j].name = document.partitions[i].name) ∧
          (∀ (j k : Nat) (hjk : j < k) (hk : k < i),
            document.partitions[j].name ≠ document.partitions[k].name) ∧
          let fault := ManifestFault.repeatedName document.partitions[i].name
          ofText text = .error fault ∧ fault.text? =
            some ("duplicate partition name '" ++ document.partitions[i].name ++ "'")) := by
  refine ⟨fun document hread => ?_, fun value document hvalue hmeans hchips => ?_⟩
  · obtain ⟨-, hchips, hdistinct⟩ := ofText_eq_ok_iff.1 hread
    refine ⟨hdistinct, ?_⟩
    rintro ⟨rom⟩ rfl
    obtain ⟨chip, chips, rfl⟩ := List.exists_cons_of_ne_nil (hchips ⟨rom⟩ rfl)
    exact ⟨chip, chips, rfl, rfl⟩
  · have hread : ofText text = document.requireDistinct := by
      rw [ofText, hvalue]
      simp only [ofValue_eq_ok_iff.2 ⟨hmeans, hchips⟩]
      rfl
    refine ⟨by simp [hread, requireDistinct_eq_ok_iff], ?_, fun hnot => ?_⟩
    · rintro chip chips rfl hdistinct
      exact hread.trans (requireDistinct_eq_ok_iff.2 ⟨hdistinct, rfl⟩)
    · obtain ⟨i, hi, hrepeats, hfirst, hfound⟩ := exists_firstRepeated_of_not_nodup hnot
      refine ⟨i, hi, hrepeats, hfirst, hread.trans ?_, rfl⟩
      rw [requireDistinct, hfound]

/-- There is a text that means the `document`, if its texts are safe: the one that is written for
it. -/
private lemma exists_text_of_safe (hsafe : ∀ text ∈ document.texts, SafeText text)
    (hchips : ∀ descriptor, document = .device descriptor → descriptor.rom ≠ []) :
    ∃ text value, Value.ofText? text = some value ∧ Means value document := by
  have hlegible : ∀ text ∈ document.toJson.texts, Legible text := fun text htext =>
    legible_of_safeText (safeText_of_mem_texts_toJson hsafe htext)
  have hmeans := (ofValue_eq_ok_iff.1 (ofValue_toJson_document hchips)).1
  cases document with
  | bundle manifest =>
    exact ⟨_, _, Value.ofText?_write_of_legible .compact (manifest.shaped_toJson 125) hlegible,
      hmeans⟩
  | device descriptor =>
    exact ⟨_, _, Value.ofText?_write_of_legible .compact (descriptor.shaped_toJson 123) hlegible,
      hmeans⟩

/-- A device descriptor whose second memory chip repeats a name of its own and one of the first chip
is read. With the chips the other way round it is refused. -/
theorem ofText_table_twoChips :
    let boot : PartitionSpec := ⟨"boot", 2, none, none⟩
    let data : PartitionSpec := ⟨"data", 1, none, none⟩
    let chips : List RomDescriptor := [⟨[boot]⟩, ⟨[boot, data, data]⟩]
    ∃ text text', ofText text = .ok (.device ⟨chips⟩) ∧
      ofText text' = .error (.repeatedName "data") := by
  intro boot data chips
  have hrom : ∀ rom : List RomDescriptor, rom ≠ [] → ∀ descriptor,
      ManifestDocument.device ⟨rom⟩ = .device descriptor → descriptor.rom ≠ [] := by
    rintro rom hne _ ⟨⟩
    exact hne
  have hchips := hrom chips (List.cons_ne_nil _ _)
  have hchips' := hrom chips.reverse (List.cons_ne_nil _ _)
  obtain ⟨text, value, hvalue, hmeans⟩ := exists_text_of_safe (by decide) hchips
  obtain ⟨text', value', hvalue', hmeans'⟩ := exists_text_of_safe (by decide) hchips'
  obtain ⟨hread, -, -⟩ := (ofText_table text).2 value _ hvalue hmeans hchips
  obtain ⟨-, -, hrefused⟩ := (ofText_table text').2 value' _ hvalue' hmeans' hchips'
  refine ⟨text, text', hread.2 (by decide), ?_⟩
  obtain ⟨i, hi, ⟨j, hj, hrepeats⟩, -, herror, -⟩ := hrefused (by decide)
  -- Of the entries of the second chip only the last one has the name of an earlier one.
  rcases i with _ | _ | _ | i
  · exact absurd hj (Nat.not_lt_zero j)
  · obtain rfl : j = 0 := by omega
    exact absurd (show "boot" = "data" from hrepeats) (by decide)
  · exact herror
  · exact absurd (show i + 3 < 3 from hi) (by omega)

end ManifestDocument

end FirmwareBundle
