import FirmwareBundle.Proofs.BundleRoundTrip
/-!
# Texts that a header gives back

A builder takes any text, and a header escapes only quotes, backslashes and the control characters
below the space. A document is read by other rules: it may not hold some of the other characters at
all, and the breaks among them are folded between quotes. So a header is read as its manifest with
folded texts, if it is read at all, and it is read back if and only if its texts are legible.

## Main definitions

* `FirmwareBundle.Manifest.fold?` — a manifest with its texts folded.

## Main results

* `FirmwareBundle.Manifest.fold?_toJson` — the object of a manifest is folded as the manifest.
* `FirmwareBundle.ManifestDocument.ofText_header_fold` — what is read of a header.
* `FirmwareBundle.ManifestDocument.ofText_header_eq_ok_iff` — the headers that are read back.
* `FirmwareBundle.readManifest_build` — what becomes of the header of a bundle that was built.
-/

namespace FirmwareBundle

open Yaml

/-! ## Folded objects -/

namespace Json

/-- The fields of two lists, `fields` and `others`, are folded one list after the other. -/
lemma foldFields?_append (fields others : List (String × Json)) :
    foldFields? (fields ++ others) =
      (foldFields? fields).bind fun fields => (foldFields? others).map (fields ++ ·) := by
  induction fields with
  | nil => cases h : foldFields? others <;> simp [foldFields?, h]
  | cons field fields ih =>
    rw [List.cons_append, foldFields?, foldFields?, ih]
    cases fold? field.2 <;> cases foldFields? fields <;> cases foldFields? others <;> rfl

/-- The items `xs` that are folded one by one are folded together. -/
lemma foldItems?_map {α : Type} {toJson : α → Json} {fold : α → Option α}
    (h : ∀ x, (toJson x).fold? = (fold x).map toJson) (xs : List α) :
    foldItems? (xs.map toJson) = (xs.mapM fold).map (List.map toJson) := by
  induction xs with
  | nil => rfl
  | cons x xs ih =>
    rw [List.map_cons, foldItems?, h, ih, List.mapM_cons]
    cases fold x <;> cases xs.mapM fold <;> rfl

/-- The field `name` that may be left out is folded if it is given. -/
private lemma foldFields?_optionalField {α : Type} {toJson : α → Json} {fold : α → Option α}
    (h : ∀ x, (toJson x).fold? = (fold x).map toJson) (name : String) (o : Option α) :
    foldFields? (optionalField name toJson o) = (o.mapM fold).map (optionalField name toJson) := by
  cases o with
  | none => rfl
  | some x =>
    rw [optionalField, foldFields?, h]
    cases hfold : fold x <;> simp [foldFields?, optionalField, hfold]

end Json

/-! ## Folded manifests -/

/-- The entry `spec` of the table with its texts folded. -/
def PartitionSpec.fold? (spec : PartitionSpec) : Option PartitionSpec := do
  let name ← foldText? spec.name
  let sha1 ← spec.sha1.mapM foldText?
  pure { spec with name, sha1 }

/-- The manifest `m` with its texts folded. -/
def Manifest.fold? (m : Manifest) : Option Manifest := do
  let kernelMem ← foldText? m.kernelMem
  let mtdPrefix ← foldText? m.mtdPrefix
  let osmem ← foldText? m.osmem
  let additionalCmdline ← m.additionalCmdline.mapM foldText?
  let skip ← m.skip.mapM (·.mapM foldText?)
  let partitions ← m.partitions.mapM PartitionSpec.fold?
  pure { m with kernelMem, mtdPrefix, osmem, additionalCmdline, skip, partitions }

/-- The object of the entry `spec` is folded as the entry: its numbers stay, and its texts are
folded where they stand. -/
private lemma PartitionSpec.fold?_toJson (spec : PartitionSpec) :
    spec.toJson.fold? = (spec.fold?).map toJson := by
  have hsize : ∀ n : UInt64, (Json.number n.toNat).fold? = (some n).map fun n => .number n.toNat :=
    fun n => rfl
  have hkept : spec.partitionSize.mapM some = some spec.partitionSize := by
    cases spec.partitionSize <;> rfl
  rw [toJson, Json.fold?, Json.foldFields?_append, Json.foldFields?_append,
    Json.foldFields?_optionalField (fun _ => rfl), Json.foldFields?_optionalField hsize, hkept,
    PartitionSpec.fold?]
  simp only [Json.foldFields?, Json.fold?]
  cases foldText? spec.name <;> cases spec.sha1.mapM foldText? <;> rfl

/-- The object of the manifest `m` is folded as the manifest.

**Proof sketch.** The object is made of lists of fields, which are folded one after the other
(`Json.foldFields?_append`). Fields that are left out stay so (`Json.foldFields?_optionalField`),
and the table is folded entry by entry (`PartitionSpec.fold?_toJson`). -/
theorem Manifest.fold?_toJson (m : Manifest) : m.toJson.fold? = (m.fold?).map toJson := by
  have hskip : ∀ names : List String, (Json.array (names.map Json.string)).fold? =
      (names.mapM foldText?).map fun names => Json.array (names.map Json.string) := by
    intro names
    rw [Json.fold?, Json.foldItems?_map fun _ => rfl]
    cases names.mapM foldText? <;> rfl
  have htable : (tableToJson m.partitions).fold? =
      (m.partitions.mapM PartitionSpec.fold?).map tableToJson := by
    rw [tableToJson, Json.fold?, Json.foldItems?_map PartitionSpec.fold?_toJson]
    cases m.partitions.mapM PartitionSpec.fold? <;> rfl
  rw [toJson, Json.fold?, Json.foldFields?_append, Json.foldFields?_append,
    Json.foldFields?_append, Json.foldFields?_optionalField (fun _ => rfl),
    Json.foldFields?_optionalField hskip, Manifest.fold?]
  simp only [BootParameters.fields, Json.foldFields?, Json.fold?, htable]
  cases foldText? m.kernelMem <;> cases foldText? m.mtdPrefix <;> cases foldText? m.osmem <;>
    cases m.additionalCmdline.mapM foldText? <;> cases m.skip.mapM (·.mapM foldText?) <;>
    cases m.partitions.mapM PartitionSpec.fold? <;> rfl

/-- The parts of the `folded` entry are folded one by one. -/
lemma PartitionSpec.fold?_eq_some_iff {spec folded : PartitionSpec} :
    spec.fold? = some folded ↔ foldText? spec.name = some folded.name ∧
      spec.sha1.mapM foldText? = some folded.sha1 ∧
      folded.payloadSize = spec.payloadSize ∧ folded.partitionSize = spec.partitionSize := by
  constructor
  · intro h
    obtain ⟨name, hname, h⟩ := Option.bind_eq_some_iff.1 h
    obtain ⟨sha1, hsha1, h⟩ := Option.bind_eq_some_iff.1 h
    obtain rfl := Option.some.inj h
    exact ⟨hname, hsha1, rfl, rfl⟩
  · rintro ⟨hname, hsha1, hsize, hpartitionSize⟩
    rw [fold?, hname, hsha1, ← hsize, ← hpartitionSize]
    rfl

/-- The parts of the `folded` manifest are folded one by one. -/
lemma Manifest.fold?_eq_some_iff {m folded : Manifest} :
    m.fold? = some folded ↔ foldText? m.kernelMem = some folded.kernelMem ∧
      foldText? m.mtdPrefix = some folded.mtdPrefix ∧ foldText? m.osmem = some folded.osmem ∧
      m.additionalCmdline.mapM foldText? = some folded.additionalCmdline ∧
      m.skip.mapM (·.mapM foldText?) = some folded.skip ∧
      m.partitions.mapM PartitionSpec.fold? = some folded.partitions ∧
      folded.setTotalMem = m.setTotalMem := by
  constructor
  · intro h
    obtain ⟨kernelMem, hkernelMem, h⟩ := Option.bind_eq_some_iff.1 h
    obtain ⟨mtdPrefix, hmtdPrefix, h⟩ := Option.bind_eq_some_iff.1 h
    obtain ⟨osmem, hosmem, h⟩ := Option.bind_eq_some_iff.1 h
    obtain ⟨cmdline, hcmdline, h⟩ := Option.bind_eq_some_iff.1 h
    obtain ⟨skip, hskip, h⟩ := Option.bind_eq_some_iff.1 h
    obtain ⟨partitions, hpartitions, h⟩ := Option.bind_eq_some_iff.1 h
    obtain rfl := Option.some.inj h
    exact ⟨hkernelMem, hmtdPrefix, hosmem, hcmdline, hskip, hpartitions, rfl⟩
  · rintro ⟨hkernelMem, hmtdPrefix, hosmem, hcmdline, hskip, hpartitions, htotal⟩
    rw [fold?, hkernelMem, hmtdPrefix, hosmem, hcmdline, hskip, hpartitions, ← htotal]
    rfl

/-- A list `xs` whose items are kept one by one is kept. -/
lemma mapM_eq_some_self_iff {α : Type} {fold : α → Option α} {xs : List α} :
    xs.mapM fold = some xs ↔ ∀ x ∈ xs, fold x = some x := by
  induction xs with
  | nil => simp
  | cons x xs ih =>
    rw [List.mapM_cons, List.forall_mem_cons, ← ih]
    constructor
    · intro h
      obtain ⟨y, hy, h⟩ := Option.bind_eq_some_iff.1 h
      obtain ⟨ys, hys, h⟩ := Option.bind_eq_some_iff.1 h
      obtain ⟨rfl, rfl⟩ := List.cons.inj (Option.some.inj h)
      exact ⟨hy, hys⟩
    · rintro ⟨hx, hxs⟩
      rw [hx, hxs]
      rfl

/-- What may be left out, `o`, is kept if it is kept where it is given. -/
lemma mapM_option_eq_some_self_iff {α : Type} {fold : α → Option α} {o : Option α} :
    o.mapM fold = some o ↔ ∀ x ∈ o, fold x = some x := by
  cases o with
  | none => simp
  | some x => cases hfold : fold x <;> simp [hfold]

/-- The entry `spec` is left as it is if its texts are. -/
lemma PartitionSpec.fold?_eq_some_self_iff {spec : PartitionSpec} :
    spec.fold? = some spec ↔ ∀ text ∈ spec.texts, foldText? text = some text := by
  rw [fold?_eq_some_iff, mapM_option_eq_some_self_iff, texts, List.forall_mem_cons]
  simp

/-- **A manifest is left as it is by folding if its texts are.**

**Proof sketch.** All parts of `m` that are folded are texts, or lists of texts and entries, which
are kept if their items are (`mapM_eq_some_self_iff`). The texts of these parts are those of `m`
(`Manifest.mem_texts_iff`). -/
theorem Manifest.fold?_eq_some_self_iff {m : Manifest} :
    m.fold? = some m ↔ ∀ text ∈ m.texts, foldText? text = some text := by
  rw [fold?_eq_some_iff]
  simp only [mem_texts_iff, mapM_option_eq_some_self_iff, mapM_eq_some_self_iff,
    PartitionSpec.fold?_eq_some_self_iff]
  constructor
  · rintro ⟨hkernelMem, hmtdPrefix, hosmem, hcmdline, hskip, hpartitions, -⟩ text
      (rfl | rfl | rfl | htext | ⟨names, hnames, htext⟩ | ⟨spec, hspec, htext⟩)
    · exact hkernelMem
    · exact hmtdPrefix
    · exact hosmem
    · exact hcmdline text htext
    · exact hskip names hnames text htext
    · exact hpartitions spec hspec text htext
  · intro h
    exact ⟨h _ (.inl rfl), h _ (.inr (.inl rfl)), h _ (.inr (.inr (.inl rfl))),
      fun text htext => h text (.inr (.inr (.inr (.inl htext)))),
      fun names hnames text htext =>
        h text (.inr (.inr (.inr (.inr (.inl ⟨names, hnames, htext⟩))))),
      fun spec hspec text htext =>
        h text (.inr (.inr (.inr (.inr (.inr ⟨spec, hspec, htext⟩))))), trivial⟩

/-! ## What is read of a header -/

namespace ManifestDocument

/-- **What is read of a header** without forbidden characters is the manifest `m` with folded texts,
if it can be folded and the names in its table are still distinct.

**Proof sketch.** The text means the folded object (`Yaml.Value.ofText?_write`), that is the object
of the folded manifest (`Manifest.fold?_toJson`), and this means the folded manifest
(`ManifestDocument.ofValue_toJson`). -/
theorem ofText_header_fold {m : Manifest}
    (hnone : ∀ text ∈ m.texts, ∀ c ∈ text.toList, ¬Json.IsForbidden c) :
    ofText m.header = (m.fold?).elim (.error .malformed)
      fun folded => (ManifestDocument.bundle folded).requireDistinct := by
  have hallowed : ∀ text ∈ m.toJson.texts, ∀ c ∈ text.toList, ¬Json.IsForbidden c := by
    intro text htext c hc
    rcases Manifest.mem_texts_toJson htext with hkey | htext
    · exact Json.not_isForbidden_of_isSafe (hkey.1 c hc)
    · exact hnone text htext c hc
  have hvalue : Value.ofText? m.header = (m.toJson.fold?).map Json.toYaml :=
    Value.ofText?_write .compact (m.shaped_toJson 125) hallowed
  rw [ofText, hvalue, m.fold?_toJson]
  cases m.fold? with
  | none => rfl
  | some folded =>
    simp only [Option.map_some, ofValue_toJson]
    rfl

/-- A header with a forbidden character `c` in one of its texts is refused. -/
private lemma ofText_header_of_forbidden {m : Manifest} {text : String} (htext : text ∈ m.texts)
    {c : Char} (hc : c ∈ text.toList) (h : Json.IsForbidden c) :
    ofText m.header = .error .malformed := by
  have hvalue : Value.ofText? m.header = none :=
    Value.ofText?_write_of_forbidden .compact (Manifest.mem_texts_toJson_of_mem htext) hc h
  rw [ofText, hvalue]

/-- The `document` is kept if its names are distinct. -/
lemma requireDistinct_eq_ok_iff {document other : ManifestDocument} :
    document.requireDistinct = .ok other ↔
      (document.partitions.map (·.name)).Nodup ∧ document = other := by
  have hdistinct : firstRepeated [] document.partitions = none ↔
      (document.partitions.map (·.name)).Nodup := by
    rw [firstRepeated_eq_none_iff]
    simp
  rw [requireDistinct, ← hdistinct]
  cases firstRepeated [] document.partitions <;> simp

/-- **The headers that are read back** are those with distinct names and legible texts.

**Proof sketch.** A header that is read has no forbidden character
(`ManifestDocument.ofText_header_of_forbidden`), and what is read of it is the folded manifest
(`ManifestDocument.ofText_header_fold`). That is `m` itself if and only if folding leaves each text
as it is (`Manifest.fold?_eq_some_self_iff`). -/
theorem ofText_header_eq_ok_iff {m : Manifest} :
    ofText m.header = .ok (.bundle m) ↔
      (m.partitions.map (·.name)).Nodup ∧ ∀ text ∈ m.texts, Legible text := by
  constructor
  · intro hread
    have hnone : ∀ text ∈ m.texts, ∀ c ∈ text.toList, ¬Json.IsForbidden c := by
      intro text htext c hc hforbidden
      rw [ofText_header_of_forbidden htext hc hforbidden] at hread
      cases hread
    rw [ofText_header_fold hnone] at hread
    cases hfold : m.fold? with
    | none =>
      rw [hfold] at hread
      cases hread
    | some folded =>
      rw [hfold] at hread
      obtain ⟨hdistinct, hsame⟩ := requireDistinct_eq_ok_iff.1 hread
      obtain rfl := ManifestDocument.bundle.inj hsame
      exact ⟨hdistinct, fun text htext =>
        ⟨hnone text htext, Manifest.fold?_eq_some_self_iff.1 hfold text htext⟩⟩
  · rintro ⟨hdistinct, hlegible⟩
    rw [ofText_header_of_legible hlegible]
    exact requireDistinct_eq_ok_iff.2 ⟨hdistinct, rfl⟩

end ManifestDocument

/-! ## Bundles that were built -/

/-- The texts that the builder `b` writes: its parameters, and what is added to the command line. -/
def Builder.texts (b : Builder) : List String :=
  [b.parameters.kernelMem, b.parameters.mtdPrefix, b.parameters.osmem] ++
    (additionalCmdline b.init b.cma).toList

section Build

variable {b : Builder} {images : List (PartitionKind × ByteArray)}

/-- A `text` of the builder `b` stands in its manifest. -/
private lemma Builder.mem_texts_manifest {text : String} (h : text ∈ b.texts)
    (specs : List PartitionSpec) : text ∈ (b.manifest specs).texts := by
  simp only [Builder.texts, List.cons_append, List.nil_append, List.mem_cons,
    Option.mem_toList] at h
  rw [Manifest.mem_texts_iff]
  rcases h with rfl | rfl | rfl | h
  · exact .inl rfl
  · exact .inr (.inl rfl)
  · exact .inr (.inr (.inl rfl))
  · exact .inr (.inr (.inr (.inl h)))

/-- Any other `text` in the manifest of the packed `images` is safe.

**Proof sketch.** The texts are those of the builder, names of kinds to be skipped
(`Builder.safeText_of_mem_skip`), and the names and digests in the entries
(`Packing.safe_entry`). -/
private lemma Builder.mem_texts_or_safeText {text : String}
    (h : text ∈ (b.manifest (images.map b.packing.entry)).texts) :
    text ∈ b.texts ∨ SafeText text := by
  have hmem : text ∈ b.texts ↔ text = b.parameters.kernelMem ∨ text = b.parameters.mtdPrefix ∨
      text = b.parameters.osmem ∨ text ∈ additionalCmdline b.init b.cma := by
    simp [Builder.texts]
  rw [hmem]
  rcases Manifest.mem_texts_iff.1 h with rfl | rfl | rfl | h | ⟨names, hnames, h⟩ | ⟨spec, hspec, h⟩
  · exact .inl (.inl rfl)
  · exact .inl (.inr (.inl rfl))
  · exact .inl (.inr (.inr (.inl rfl)))
  · exact .inl (.inr (.inr (.inr h)))
  · exact .inr (Builder.safeText_of_mem_skip names hnames text h)
  · obtain ⟨image, -, rfl⟩ := List.mem_map.1 hspec
    exact .inr ((b.packing.safe_entry image).safeText h)

/-- The entries of packed `images` are left as they are by folding. -/
private lemma Packing.mapM_fold?_entry (packing : Packing) :
    (images.map packing.entry).mapM PartitionSpec.fold? = some (images.map packing.entry) := by
  refine mapM_eq_some_self_iff.2 (List.forall_mem_map.2 fun image _ => ?_)
  refine PartitionSpec.fold?_eq_some_self_iff.2 fun text htext => ?_
  exact (legible_of_safeText ((packing.safe_entry image).safeText htext)).2

/-- So is the table in the manifest of packed `images`. -/
private lemma Builder.partitions_of_fold? {folded : Manifest}
    (h : (b.manifest (images.map b.packing.entry)).fold? = some folded) :
    folded.partitions = images.map b.packing.entry := by
  obtain ⟨-, -, -, -, -, hpartitions, -⟩ := Manifest.fold?_eq_some_iff.1 h
  exact (Option.some.inj (b.packing.mapM_fold?_entry.symm.trans hpartitions)).symm

/-- The header of a `bundle` that was built is refused if the builder writes a forbidden character
`c`. -/
private lemma readManifest_build_of_forbidden {bundle : Bundle} (hbuild : b.build = .ok bundle)
    {text : String} (htext : text ∈ b.texts) {c : Char} (hc : c ∈ text.toList)
    (h : Json.IsForbidden c) : readManifest bundle.toBytes = .error (.manifest .malformed) := by
  obtain ⟨-, rfl⟩ := Builder.build_eq_ok_iff.1 hbuild
  rw [readManifest_toBytes_eq,
    ManifestDocument.ofText_header_of_forbidden (Builder.mem_texts_manifest htext _) hc h]
  rfl

/-- **What becomes of the header of a bundle that was built.** It is read back if and only if the
texts that the builder `b` writes are legible. If one of them has a forbidden character it is
refused. Otherwise it is read as the manifest with its texts folded, and refused if they cannot be
folded.

**Proof sketch.** The header is read as its text is, up to the first zero. The texts in it are those
of the builder and safe ones (`Builder.mem_texts_or_safeText`), which are legible. The names in the
table are distinct and stay so, since it is left as it is by folding
(`Builder.partitions_of_fold?`). So `ManifestDocument.ofText_header_eq_ok_iff` and
`ManifestDocument.ofText_header_fold` apply. -/
theorem readManifest_build {bundle : Bundle} (hbuild : b.build = .ok bundle) :
    (readManifest bundle.toBytes =
        .ok (.bundle bundle.manifest, bundle.manifest.header.size + 1) ↔
      ∀ text ∈ b.texts, Legible text) ∧
    ((∃ text ∈ b.texts, ∃ c ∈ text.toList, Json.IsForbidden c) →
      readManifest bundle.toBytes = .error (.manifest .malformed)) ∧
    ((∀ text ∈ b.texts, ∀ c ∈ text.toList, ¬Json.IsForbidden c) →
      readManifest bundle.toBytes = (bundle.manifest.fold?).elim (.error (.manifest .malformed))
        fun folded => .ok (.bundle folded, bundle.manifest.header.size + 1)) := by
  refine ⟨?_, ?_, ?_⟩
  · obtain ⟨-, rfl⟩ := Builder.build_eq_ok_iff.1 hbuild
    have hread := ManifestDocument.ofText_header_eq_ok_iff
      (m := b.manifest (b.payloads.toList.map b.packing.entry))
    have hlegible : (∀ text ∈ (b.manifest (b.payloads.toList.map b.packing.entry)).texts,
        Legible text) ↔ ∀ text ∈ b.texts, Legible text := by
      constructor
      · intro h text htext
        exact h text (Builder.mem_texts_manifest htext _)
      · intro h text htext
        rcases Builder.mem_texts_or_safeText htext with htext | hsafe
        · exact h text htext
        · exact legible_of_safeText hsafe
    rw [hlegible, and_iff_right b.nodup_names] at hread
    rw [← hread, readManifest_toBytes_eq]
    generalize ManifestDocument.ofText _ = read
    cases read <;> simp [Except.mapError, Except.map]
  · rintro ⟨text, htext, c, hc, hforbidden⟩
    exact readManifest_build_of_forbidden hbuild htext hc hforbidden
  · intro hnone
    obtain ⟨-, rfl⟩ := Builder.build_eq_ok_iff.1 hbuild
    have hread := ManifestDocument.ofText_header_fold
      (m := b.manifest (b.payloads.toList.map b.packing.entry)) fun text htext c hc => by
        rcases Builder.mem_texts_or_safeText htext with htext | hsafe
        · exact hnone text htext c hc
        · exact Json.not_isForbidden_of_isSafe (hsafe c hc)
    rw [readManifest_toBytes_eq, hread]
    cases hfold : (b.manifest (b.payloads.toList.map b.packing.entry)).fold? with
    | none => rfl
    | some folded =>
      have hdistinct : ((ManifestDocument.bundle folded).partitions.map (·.name)).Nodup := by
        rw [ManifestDocument.partitions, Builder.partitions_of_fold? hfold]
        exact b.nodup_names
      rw [Option.elim, ManifestDocument.requireDistinct_eq_ok_iff.2 ⟨hdistinct, rfl⟩]
      rfl

end Build

/-- A boot loader of one byte and a text for the command line. -/
def Builder.ofCma (cma : String) : Builder where
  cma
  payloads := { boot := some ⟨#[0x62]⟩ }

/-- The builder `Builder.ofCma cma` gives a bundle. -/
private lemma Builder.exists_build_ofCma (cma : String) :
    ∃ bundle, (Builder.ofCma cma).build = .ok bundle := by
  have hfits : ∀ image ∈ (Builder.ofCma "").payloads.toList,
      image.2.size ≤ (Builder.ofCma "").packing.capacity image.1 := by decide
  exact ⟨_, Builder.build_eq_ok_iff.2 ⟨hfits, rfl⟩⟩

/-- With a delete character in the text the header of the bundle is refused, without it the header
is read back, and a next line character is read as a space. -/
theorem readManifest_build_delete :
    (∃ bundle, (Builder.ofCma "mmz=\x7f").build = .ok bundle ∧
      readManifest bundle.toBytes = .error (.manifest .malformed)) ∧
    (∃ bundle, (Builder.ofCma "mmz=").build = .ok bundle ∧
      readManifest bundle.toBytes =
        .ok (.bundle bundle.manifest, bundle.manifest.header.size + 1)) ∧
    ∃ bundle, (Builder.ofCma "a\u0085b").build = .ok bundle ∧
      readManifest bundle.toBytes =
        .ok (.bundle { bundle.manifest with additionalCmdline := some "a b" },
          bundle.manifest.header.size + 1) := by
  obtain ⟨refused, hrefused⟩ := Builder.exists_build_ofCma "mmz=\x7f"
  obtain ⟨clean, hclean⟩ := Builder.exists_build_ofCma "mmz="
  obtain ⟨folded, hfolded⟩ := Builder.exists_build_ofCma "a\u0085b"
  have hdelete : ∃ text ∈ (Builder.ofCma "mmz=\x7f").texts,
      ∃ c ∈ text.toList, Json.IsForbidden c :=
    ⟨"mmz=\x7f", by decide, '\x7f', by decide, by decide⟩
  have hlegible : ∀ text ∈ (Builder.ofCma "mmz=").texts, Legible text :=
    forall_mem_of_all (by decide : (Builder.ofCma "mmz=").texts.all fun text => Legible text)
  have hnone : ∀ text ∈ (Builder.ofCma "a\u0085b").texts,
      ∀ c ∈ text.toList, ¬Json.IsForbidden c := fun text htext => forall_mem_of_all <|
    List.all_eq_true.1 (by decide : (Builder.ofCma "a\u0085b").texts.all fun text =>
      text.toList.all fun c => ¬Json.IsForbidden c) text htext
  refine ⟨⟨refused, hrefused, (readManifest_build hrefused).2.1 hdelete⟩,
    ⟨clean, hclean, (readManifest_build hclean).1.2 hlegible⟩, folded, hfolded, ?_⟩
  have hfold : folded.manifest.fold? =
      some { folded.manifest with additionalCmdline := some "a b" } := by
    obtain ⟨-, rfl⟩ := Builder.build_eq_ok_iff.1 hfolded
    exact Manifest.fold?_eq_some_iff.2 ⟨by decide, by decide, by decide, by decide, rfl,
      Packing.mapM_fold?_entry _, rfl⟩
  rw [(readManifest_build hfolded).2.2 hnone, hfold]
  rfl

/-- So not every header that is written is read back. -/
theorem not_forall_build_readManifest : ¬∀ {b : Builder} {bundle : Bundle},
    b.build = .ok bundle → readManifest bundle.toBytes =
      .ok (.bundle bundle.manifest, bundle.manifest.header.size + 1) := by
  intro h
  obtain ⟨bundle, hbundle⟩ := Builder.exists_build_ofCma "mmz=\x7f"
  have hread := h hbundle
  rw [readManifest_build_of_forbidden hbundle (by decide : "mmz=\x7f" ∈ _)
    (by decide : '\x7f' ∈ _) (by decide)] at hread
  cases hread

end FirmwareBundle
