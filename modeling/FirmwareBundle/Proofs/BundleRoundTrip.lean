import FirmwareBundle.Proofs.Bytes
import FirmwareBundle.Proofs.Builder
import FirmwareBundle.Proofs.HeaderRoundTrip
import FirmwareBundle.Proofs.Scan
import Mathlib.Data.List.Nodup
/-!
# Bundles read back

A bundle that was built is scanned without a fault, whatever its payloads hold: the header ends at
the first zero byte, since its text has none, and behind it the records stand in a row.

## Main definitions

* `FirmwareBundle.Builder.Safe` — the texts that a builder was given are safe.

## Main results

* `FirmwareBundle.Bundle.toBytes_eq` — the parts of a bundle one behind the other.
* `FirmwareBundle.Manifest.header_ne_zero` — a header has no zero byte.
* `FirmwareBundle.readManifest_toBytes` — the header of a bundle is read back.
* `FirmwareBundle.scan_toBytes` — the payloads of a bundle are read back.
-/

namespace FirmwareBundle

open Yaml

/-! ## Safe texts -/

/-- The texts `s` and `t` are safe one behind the other if each of them is. -/
lemma safeText_append {s t : String} (hs : SafeText s) (ht : SafeText t) : SafeText (s ++ t) := by
  intro c hc
  rw [String.toList_append, List.mem_append] at hc
  exact hc.elim (hs c) (ht c)

/-- The digest of a `payload` is a safe text, since it has nothing but hexadecimal digits. -/
private lemma safeText_shortDigest (payload : ByteArray) : SafeText (shortDigest payload) := by
  have hdigit : ∀ d < 16, IsSafe (Nat.digitChar d) := by decide
  intro c hc
  rw [shortDigest, String.toList_ofList] at hc
  obtain ⟨byte, -, hbyte⟩ := List.mem_flatMap.1 (List.mem_of_mem_take hc)
  have hlt := byte.toNat_lt
  rcases List.mem_cons.1 hbyte with rfl | hbyte
  · exact hdigit _ (by omega)
  · rw [List.mem_singleton.1 hbyte]
    exact hdigit _ (by omega)

/-- The name of a `kind` is a safe text. -/
private lemma safeText_name (kind : PartitionKind) : SafeText kind.name := by
  cases kind <;> decide

/-! ## Headers without zero bytes -/

/-- No `byte` in the encoding of a character `c` other than zero is zero: the leading byte carries
bits of `c` or a mark, and the others carry a mark. -/
private lemma ne_zero_of_mem_utf8EncodeChar {c : Char} (hc : c ≠ '\x00') {byte : UInt8}
    (hbyte : byte ∈ String.utf8EncodeChar c) : byte ≠ 0 := by
  have hzero : c.val.toNat ≠ 0 := fun h => hc (Char.ext (UInt32.toNat_inj.1 h))
  have hof : ∀ n : Nat, n % 256 ≠ 0 → UInt8.ofNat n ≠ 0 := fun n hn h =>
    hn (by simpa using congrArg UInt8.toNat h)
  unfold String.utf8EncodeChar at hbyte
  dsimp only at hbyte
  split_ifs at hbyte
  all_goals simp only [List.mem_cons, List.not_mem_nil, or_false] at hbyte
  · exact hbyte ▸ hof _ (by omega)
  · rcases hbyte with rfl | rfl <;> exact hof _ (by omega)
  · rcases hbyte with rfl | rfl | rfl <;> exact hof _ (by omega)
  · rcases hbyte with rfl | rfl | rfl | rfl <;> exact hof _ (by omega)

/-- A `text` without zero characters has no zero byte when it is encoded. A byte of it is one of
some character's, so this comes from `ne_zero_of_mem_utf8EncodeChar`. -/
lemma toUTF8_ne_zero {text : List Char} (h : ∀ c ∈ text, c ≠ '\x00') (i : Nat)
    (hi : i < (String.ofList text).toUTF8.size) : (String.ofList text).toUTF8[i] ≠ 0 := by
  have hbytes : (String.ofList text).toUTF8 = (text.flatMap String.utf8EncodeChar).toByteArray :=
    String.toByteArray_ofList
  have hlt : i < (text.flatMap String.utf8EncodeChar).length := by
    rw [hbytes, List.size_toByteArray] at hi
    exact hi
  simp only [hbytes, List.getElem_toByteArray]
  obtain ⟨c, hc, hbyte⟩ := List.mem_flatMap.1 (List.getElem_mem hlt)
  exact ne_zero_of_mem_utf8EncodeChar (h c hc) hbyte

/-- The text of a `value` has no zero character, in any `layout`, since in its texts that character
is escaped. -/
lemma Json.ne_zero_of_mem_write {layout : Layout} {level : Nat} {value : Json} {x : Char}
    (hx : x ∈ write layout level value) : x ≠ '\x00' := by
  rintro rfl
  rcases isMark_or_exists_of_mem_write value hx with hmark | ⟨text, -, hx⟩
  · exact absurd hmark (by decide)
  · rcases isMark_or_mem_of_mem_writeString hx with hmark | ⟨-, hspace⟩
    · exact absurd hmark (by decide)
    · exact absurd hspace (by decide)

/-- The header of `m` has no zero byte, whatever its texts are: its characters are those of a
written value (`Json.ne_zero_of_mem_write`). -/
theorem Manifest.header_ne_zero (m : Manifest) (i : Nat) (hi : i < m.header.size) :
    m.header[i] ≠ 0 :=
  toUTF8_ne_zero (fun _ hc => Json.ne_zero_of_mem_write hc) i hi

/-! ## Bytes of a bundle -/

namespace Bundle

/-- Writing a length word and the payload for each of `payloads` behind `written` puts
`Record.encodeAll payloads` there. -/
private lemma foldl_records (payloads : List ByteArray) (written : ByteArray) :
    (payloads.flatMap fun payload => [Bytes.ofLength payload.size, payload]).foldl (· ++ ·)
      written = written ++ Record.encodeAll payloads := by
  induction payloads generalizing written with
  | nil => simp [Record.encodeAll]
  | cons payload payloads ih =>
    simp only [List.flatMap_cons, List.cons_append, List.nil_append, List.foldl_cons, ih,
      Record.encodeAll, Record.encode, ByteArray.append_assoc]

/-- **The bytes of a bundle** are its header, a zero byte, and the records of its payloads. -/
theorem toBytes_eq (b : Bundle) :
    b.toBytes = b.manifest.header ++ (⟨#[0]⟩ ++ Record.encodeAll b.payloads) := by
  rw [toBytes, parts, List.foldl_cons, List.foldl_cons, foldl_records, ByteArray.empty_append,
    ByteArray.append_assoc]

end Bundle

/-! ## Reading a bundle -/

section Reading

variable {bundle : Bundle}

variable (bundle) in
/-- **The header of a bundle is what is read of it first**, whatever its texts are, and the records
start behind the zero byte after it.

**Proof sketch.** The header has no zero byte (`Manifest.header_ne_zero`), so the first zero byte of
`bundle.toBytes` is the one behind it (`Bytes.firstZero_append`), and the bytes in front of that one
are the header. -/
theorem readManifest_toBytes_eq :
    readManifest bundle.toBytes =
      ((ManifestDocument.ofText bundle.manifest.header).mapError .manifest).map
        (·, bundle.manifest.header.size + 1) := by
  have hzero : Bytes.firstZero bundle.toBytes = some bundle.manifest.header.size := by
    rw [bundle.toBytes_eq]
    exact Bytes.firstZero_append bundle.manifest.header_ne_zero
  have hheader : bundle.toBytes.extract 0 bundle.manifest.header.size =
      bundle.manifest.header := by
    rw [bundle.toBytes_eq]
    exact ByteArray.extract_append_eq_left rfl
  rw [readManifest, hzero]
  simp only [hheader]
  cases ManifestDocument.ofText bundle.manifest.header <;> rfl

/-- **The header of a bundle is read back** as `bundle.manifest` if its texts are safe and its names
distinct, by `readManifest_toBytes_eq` and the round trip of headers. -/
theorem readManifest_toBytes (hsafe : bundle.manifest.Safe)
    (hdistinct : (bundle.manifest.partitions.map (·.name)).Nodup) :
    readManifest bundle.toBytes =
      .ok (.bundle bundle.manifest, bundle.manifest.header.size + 1) := by
  rw [readManifest_toBytes_eq, ManifestDocument.ofText_header_of_nodup hsafe hdistinct]
  rfl

/-- The records of `bundle.payloads` stand in a row behind its header and fill it to its end, if
each payload has fewer than `2 ^ 32` bytes. -/
lemma tiles_toBytes (hshort : ∀ payload ∈ bundle.payloads, payload.size < 2 ^ 32) :
    Record.Tiles bundle.toBytes (bundle.manifest.header.size + 1) bundle.payloads .empty := by
  refine ⟨hshort, ?_⟩
  have hsize : (⟨#[0]⟩ : ByteArray).size = 1 := rfl
  rw [bundle.toBytes_eq, ← ByteArray.append_assoc, ByteArray.append_empty]
  refine ByteArray.extract_append_eq_right ?_ ?_
  · rw [ByteArray.size_append, hsize]
  · rw [ByteArray.size_append]

variable (bundle) in
/-- **The scan of a bundle** whose header is read back and whose table has an entry for each
payload: the sink is given the valid payloads, which bring it from `state` to `fed`, and every
payload is held against its entry.

**Proof sketch.** The header is read (`readManifest_toBytes`), and the records behind it are a row
to the end of the bytes (`tiles_toBytes`), so `scanFrom_tiles` runs over them all. -/
theorem scan_toBytes_eq {σ : Type} {sink : Sink σ} {state fed last : σ}
    (hsafe : bundle.manifest.Safe)
    (hdistinct : (bundle.manifest.partitions.map (·.name)).Nodup)
    (hshort : ∀ payload ∈ bundle.payloads, payload.size < 2 ^ 32)
    (hlength : bundle.payloads.length = bundle.manifest.partitions.length)
    (hfeed : sink.feed state (Sink.valid (bundle.manifest.partitions.zip bundle.payloads)) =
      .ok fed)
    (hfinish : sink.finish fed = .ok last) :
    scan sink bundle.toBytes state =
      ⟨.parsed (.bundle bundle.manifest) ::
          (ScanEvent.ofRecords (bundle.manifest.header.size + 1)
            (bundle.manifest.partitions.zip bundle.payloads) ++ [.finished]),
        last,
        .ok ⟨.bundle, List.zipWith Outcome.classify bundle.manifest.partitions bundle.payloads,
          bundle.toBytes.size⟩⟩ := by
  have htiles := tiles_toBytes hshort
  have hend : bundle.manifest.header.size + 1 + (Record.encodeAll bundle.payloads).size =
      bundle.toBytes.size := by
    have hone : (⟨#[0]⟩ : ByteArray).size = 1 := rfl
    rw [bundle.toBytes_eq, ByteArray.size_append, ByteArray.size_append, hone]
    omega
  rw [scan, readManifest_toBytes hsafe hdistinct]
  simp only [scanRecords, ManifestDocument.partitions, ManifestDocument.shape]
  rw [scanFrom_tiles htiles (Nat.le_of_eq hlength) hfeed, hlength, List.drop_length, scanFrom,
    finishScan, hfinish]
  simp [Scan.after, Scan.map, Except.map, hend]

end Reading

/-! ## Whole bundles -/

/-- The texts that the builder `b` was given are safe. -/
structure Builder.Safe (b : Builder) : Prop where
  kernelMem : SafeText b.parameters.kernelMem
  mtdPrefix : SafeText b.parameters.mtdPrefix
  osmem : SafeText b.parameters.osmem
  cma : SafeText b.cma

instance : DecidablePred Builder.Safe := fun b =>
  decidable_of_iff (SafeText b.parameters.kernelMem ∧ SafeText b.parameters.mtdPrefix ∧
      SafeText b.parameters.osmem ∧ SafeText b.cma)
    ⟨fun ⟨h1, h2, h3, h4⟩ => ⟨h1, h2, h3, h4⟩, fun h => ⟨h.1, h.2, h.3, h.4⟩⟩

/-- What is added to the command line is a safe text if `cma` is, since the only other part is
`init=/init`. -/
private lemma safeText_additionalCmdline {init : Bool} {cma text : String} (hcma : SafeText cma)
    (h : additionalCmdline init cma = some text) : SafeText text := by
  unfold additionalCmdline at h
  split_ifs at h <;> obtain rfl := Option.some.inj h
  · decide
  · exact safeText_append (by decide) hcma
  · exact hcma

/-- The entry of a payload has safe texts: a name and a digest. -/
lemma Packing.safe_entry (packing : Packing) (image : PartitionKind × ByteArray) :
    (packing.entry image).Safe :=
  ⟨safeText_name image.1, by simpa [Packing.entry] using safeText_shortDigest image.2⟩

/-- The partitions that a builder has a device skip have safe names, `boot` and `env`. -/
lemma Builder.safeText_of_mem_skip {b : Builder} {specs : List PartitionSpec} :
    ∀ names ∈ (b.manifest specs).skip, ∀ name ∈ names, SafeText name := by
  intro names hnames
  simp only [Builder.manifest] at hnames
  split_ifs at hnames
  · obtain rfl := Option.some.inj hnames
    decide
  · cases hnames

/-- The manifest that `b` makes of packed `images` has safe texts if the texts of `b` are safe. -/
lemma Builder.Safe.manifest {b : Builder} (h : b.Safe)
    (images : List (PartitionKind × ByteArray)) :
    (b.manifest (images.map b.packing.entry)).Safe where
  kernelMem := h.kernelMem
  mtdPrefix := h.mtdPrefix
  osmem := h.osmem
  additionalCmdline := fun _ htext => safeText_additionalCmdline h.cma htext
  skip := Builder.safeText_of_mem_skip
  partitions := List.forall_mem_map.2 fun image _ => b.packing.safe_entry image

/-- The names in the table of a bundle that was built are distinct, since no kind is given twice
(`Slots.nodup_kinds`) and kinds are told apart by their names. -/
lemma Builder.nodup_names (b : Builder) :
    ((b.manifest (b.payloads.toList.map b.packing.entry)).partitions.map (·.name)).Nodup := by
  have hkinds := List.Nodup.map PartitionKind.name_injective b.payloads.nodup_kinds
  simpa [Builder.manifest, Packing.entry, Function.comp_def] using hkinds

/-- A payload of `size` bytes that fits can be told by a length word. -/
lemma Packing.lt_of_le_capacity {packing : Packing} {kind : PartitionKind} {size : Nat}
    (h : size ≤ packing.capacity kind) : size < 2 ^ 32 :=
  Nat.lt_of_le_of_lt (Nat.le_trans h (packing.capacity_le kind))
    (by decide : Bytes.maxLength < 2 ^ 32)

/-- A packed payload is valid for its own entry: its length and its digest are those of the
entry. -/
private lemma Outcome.classify_entry (packing : Packing) {image : PartitionKind × ByteArray}
    (hshort : image.2.size < 2 ^ 32) :
    classify (packing.entry image) image.2 =
      .ok image.1.name image.2.size (shortDigest image.2) := by
  have hsize : (packing.entry image).payloadSize.toNat = image.2.size := by
    simp only [Packing.entry, Nat.toUInt64_eq, UInt64.toNat_ofNat']
    omega
  have hclassifies := classifies_classify (packing.entry image) image.2
  generalize classify (packing.entry image) image.2 = outcome at hclassifies ⊢
  cases hclassifies with
  | sizeMismatch size_ne => exact absurd hsize.symm size_ne
  | digestMismatch size_eq stored ne_empty ne_digest =>
    exact absurd (Option.some.inj stored).symm ne_digest
  | ok size_eq digest_eq => rfl

/-- Packed `images` are all handed to the sink, and all are found valid, each for its own entry
(`Outcome.classify_entry`). -/
lemma valid_zip_entries (packing : Packing) {images : List (PartitionKind × ByteArray)}
    (hshort : ∀ image ∈ images, image.2.size < 2 ^ 32) :
    Sink.valid ((images.map packing.entry).zip (images.map (·.2))) =
        images.map (fun image => (packing.entry image, image.2)) ∧
      List.zipWith Outcome.classify (images.map packing.entry) (images.map (·.2)) =
        images.map fun image => .ok image.1.name image.2.size (shortDigest image.2) := by
  constructor
  · rw [List.zip_map', Sink.valid, List.filter_eq_self]
    rintro record hrecord
    obtain ⟨image, himage, rfl⟩ := List.mem_map.1 hrecord
    rw [Outcome.classify_entry packing (hshort image himage)]
    rfl
  · rw [List.zipWith_map, List.zipWith_self]
    exact List.map_congr_left fun image himage =>
      Outcome.classify_entry packing (hshort image himage)

/-- **A bundle that was built is read back.** With a `sink` that never fails the scan of its bytes
finds every payload valid, in the order of flash memory; the sink is given exactly the payloads with
their entries, one after the other, and is told once that there are no more.

**Proof sketch.** The payloads fit (`Builder.build_eq_ok_iff`), so each has a record and is valid
for its entry (`valid_zip_entries`). The header is read back (`readManifest_toBytes`), and behind it
the records stand in a row up to the end (`tiles_toBytes`), which is scanned as a whole
(`scan_toBytes_eq`). -/
theorem scan_toBytes {σ : Type} {sink : Sink σ} (hsink : sink.NeverFails) {b : Builder}
    (hb : b.Safe) {bundle : Bundle} (hbuild : b.build = .ok bundle) (state : σ) :
    ∃ fed, sink.feed state (b.payloads.toList.map fun image =>
        (b.packing.entry image, image.2)) = .ok fed ∧
      sink.finish fed = .ok (scan sink bundle.toBytes state).sink ∧
      (scan sink bundle.toBytes state).result = .ok ⟨.bundle,
        b.payloads.toList.map fun image =>
          .ok image.1.name image.2.size (shortDigest image.2),
        bundle.toBytes.size⟩ := by
  obtain ⟨hfits, rfl⟩ := Builder.build_eq_ok_iff.1 hbuild
  have hshort : ∀ image ∈ b.payloads.toList, image.2.size < 2 ^ 32 := fun image himage =>
    Nat.lt_of_le_of_lt (Nat.le_trans (hfits image himage) (b.packing.capacity_le image.1))
      (by decide : Bytes.maxLength < 2 ^ 32)
  obtain ⟨hvalid, houtcomes⟩ := valid_zip_entries b.packing hshort
  obtain ⟨fed, hfed⟩ := hsink.exists_feed state (b.payloads.toList.map fun image =>
    (b.packing.entry image, image.2))
  obtain ⟨last, hlast⟩ := hsink.finish fed
  have hscan := scan_toBytes_eq ⟨b.manifest _, _⟩ (hb.manifest b.payloads.toList) b.nodup_names
    (List.forall_mem_map.2 hshort) (by simp [Builder.manifest]) (hvalid ▸ hfed) hlast
  exact ⟨fed, hfed, by rw [hscan]; exact hlast, by rw [hscan]; exact houtcomes ▸ rfl⟩

/-- A boot loader that begins like a header with its zero byte, and an empty root file system, with
texts that have to be escaped: a case of `scan_toBytes` in which nothing may be mistaken for a
header. -/
theorem scan_toBytes_lookalike :
    let b : Builder := {
      parameters := ⟨"\x7b\"", true, "a: #b\n", "\u00e9\x01"⟩
      packing := .tight
      init := true
      cma := "'mmz'\\"
      payloads := { boot := some ⟨#[0x7b, 0x7d, 0, 1, 0, 0, 0]⟩, rootfs := some ⟨#[]⟩ } }
    Sink.discard.NeverFails ∧ b.Safe ∧ ∃ bundle, b.build = .ok bundle ∧
      (scan Sink.discard bundle.toBytes ()).result = .ok ⟨.bundle,
        [.ok "boot" 7 (shortDigest ⟨#[0x7b, 0x7d, 0, 1, 0, 0, 0]⟩),
          .ok "rootfs" 0 (shortDigest ⟨#[]⟩)],
        bundle.toBytes.size⟩ := by
  intro b
  have hbuild := Builder.build_eq_ok_iff.2 (⟨by decide, rfl⟩ :
    (∀ image ∈ b.payloads.toList, image.2.size ≤ b.packing.capacity image.1) ∧ _ = _)
  obtain ⟨-, -, -, hresult⟩ := scan_toBytes Sink.discard_neverFails (by decide : b.Safe) hbuild ()
  exact ⟨Sink.discard_neverFails, by decide, _, hbuild, hresult⟩

end FirmwareBundle
