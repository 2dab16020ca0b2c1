import FirmwareBundle.Proofs.ScanModes
/-!
# Scans that fail

A scan hands a payload on as soon as it has found it valid, and takes nothing back. So where the
records turn out not to fit the header, what was valid before the fault has been written. What a
scan leaves is the same then as if it had succeeded: the valid payloads of the complete records, and
no change anywhere else.

## Main definitions

* `FirmwareBundle.ScanMode.Leaves` — what a mode leaves of some valid payloads.

## Main results

* `FirmwareBundle.Extraction.exists_of_feed_eq_ok` — where payloads are extracted to, whatever the
  path of the directory looks like.
* `FirmwareBundle.scanInto_leaves` — what a scan leaves unless a payload cannot be written.
* `FirmwareBundle.scanInto_error_cases` — the errors of a scan.
* `FirmwareBundle.scanFile_of_broken` — what a scan of a broken dump leaves.
-/

namespace FirmwareBundle

/-! ## Errors -/

/-- The errors for an entry without a complete record concern the records, whatever the `fault`
is. -/
private lemma Record.Fault.exists_broken_of_toError (fault : Record.Fault) (name : String)
    (index declared offset : Nat) : ∃ reason,
      fault.toError name index declared offset = .broken reason ∧ reason ≠ .missingTerminator := by
  cases fault with
  | absent => exact ⟨_, rfl, nofun⟩
  | truncated length available => exact ⟨_, rfl, nofun⟩

/-- A fault `e` in the structure of the records is told as one of them, not as one of the header. -/
lemma exists_of_structuralFault_eq_some {data : ByteArray} {names : List String} {offset : Nat}
    {payloads : List ByteArray} {e : BundleError}
    (h : structuralFault data names offset payloads = some e) :
    ∃ reason, e = .broken reason ∧ reason ≠ .missingTerminator := by
  rw [structuralFault] at h
  split at h
  · rename_i name _ _
    split at h
    · rename_i fault _
      obtain ⟨reason, hreason, hne⟩ := fault.exists_broken_of_toError name payloads.length
        names.length (offset + (Record.encodeAll payloads).size)
      exact ⟨reason, (Option.some.inj h).symm.trans hreason, hne⟩
    · cases h
  · split at h
    · cases h
    · refine ⟨_, (Option.some.inj h).symm, ?_⟩
      intro hreason
      cases hreason

/-- A header is not read either because it has no end or because it is no manifest: `data` has no
zero byte, or the text before the first one is refused. -/
lemma readManifest_eq_error_iff {data : ByteArray} {e : BundleError} :
    readManifest data = .error e ↔
      Bytes.firstZero data = none ∧ e = .broken .missingTerminator ∨
      ∃ length fault, Bytes.firstZero data = some length ∧
        ManifestDocument.ofText (data.extract 0 length) = .error fault ∧ e = .manifest fault := by
  rw [readManifest]
  cases hzero : Bytes.firstZero data with
  | none => simp [eq_comm]
  | some length =>
    cases htext : ManifestDocument.ofText (data.extract 0 length) with
    | error fault => simp [htext, eq_comm]
    | ok document => simp [htext]

/-! ## What is extracted -/

section Extraction

variable {files : FileSystem} {dir : String} {written : List String}
  {records : List (PartitionSpec × ByteArray)}

/-- **Payloads that are extracted** lie in one directory, each at its name: in the one at `place`
that the names of the path `dir` lead to. If there are none, any place will do.

**Proof sketch.** The first payload is extracted to its name in some directory
(`FileSystem.Names.exists_walk`), to which the names of `dir` lead. From there on
`Extraction.feed_eq_ok_iff` applies. -/
theorem Extraction.exists_of_feed_eq_ok {s : Extraction}
    (h : (Sink.extract dir).feed ⟨files, written⟩ records = .ok s) :
    ∃ place, (∀ record ∈ records, Path.isPlainName record.1.name ∧
        files.Names (Path.join dir record.1.name) (place ++ [record.1.name])) ∧
      (records ≠ [] → files.walk (files.origin dir) (Path.parts dir) = .ok place) ∧
      s = ⟨files.putAll (extracted place records),
        written ++ records.map fun record => Path.join dir record.1.name⟩ := by
  cases records with
  | nil =>
    obtain rfl := Except.ok.inj h
    exact ⟨[], nofun, fun hne => absurd rfl hne, by rw [List.map_nil, List.append_nil]; rfl⟩
  | cons record records =>
    obtain ⟨next, haccept, -⟩ := bind_eq_ok_iff.1 ((Sink.feed_cons ..).symm.trans h)
    obtain ⟨hplain, target, hnames, -⟩ := accept_eq_ok_iff_exists.1 haccept
    obtain ⟨place, hwalk, -⟩ := hnames.exists_walk hplain
    obtain ⟨hplaces, hfeed⟩ := (feed_eq_ok_iff hwalk).1 h
    exact ⟨place, hplaces, fun _ => hwalk, hfeed⟩

end Extraction

/-! ## What a scan leaves -/

/-- What a mode leaves in `after` of the payloads `valid`: nothing, a file for each of them, or one
file with all of them, and no change anywhere else. -/
def ScanMode.Leaves (files after : FileSystem) (valid : List (PartitionSpec × ByteArray)) :
    ScanMode → Prop
  | .summary => after = files
  | .extract dir => ∃ place,
      (∀ record ∈ valid, Path.isPlainName record.1.name ∧
        files.Names (Path.join dir record.1.name) (place ++ [record.1.name]) ∧
        after.tree.get? (place ++ [record.1.name]) = some (.file record.2)) ∧
      files.SameExcept after (valid.map fun record => place ++ [record.1.name])
  | .concatenate path => ∃ place, files.Names path place ∧
      after.tree.get? place = some (.file (payloadBytes valid)) ∧ files.SameExcept after [place]

section Leaves

variable {files : FileSystem} {data : ByteArray} {document : ManifestDocument} {offset : Nat}
  {payloads : List ByteArray}

/-- Extracted payloads are what an extraction leaves, if the names of `valid` are distinct and their
paths lead into one directory. -/
private lemma leaves_putAll_extracted {dir : String} {place : Location}
    {valid : List (PartitionSpec × ByteArray)} (hdistinct : (valid.map (·.1.name)).Nodup)
    (hnames : ∀ record ∈ valid, Path.isPlainName record.1.name ∧
      files.Names (Path.join dir record.1.name) (place ++ [record.1.name])) :
    (ScanMode.extract dir).Leaves files (files.putAll (extracted place valid)) valid := by
  refine ⟨place, fun record hrecord =>
    ⟨(hnames record hrecord).1, (hnames record hrecord).2, ?_⟩, ?_⟩
  · exact (read_extracted (fun _ h => (hnames _ h).2) hdistinct hrecord).1
  · rw [← map_fst_extracted]
    exact FileSystem.sameExcept_putAll fun _ => ne_nil_of_mem_extracted

/-- **What a scan leaves.** A scan that has a header and is not stopped by a payload that cannot be
written leaves the valid payloads of the complete records, and these records decide the result.

**Proof sketch.** The sink of each mode takes the valid payloads up to the first that it refuses
(`scanRecords_taken`), and only a file that cannot be written is refused. If none is refused, the
files are those of `leaves_putAll_extracted`, or the one file of `scanInto_concatenate_eq`. -/
theorem scanInto_leaves (files : FileSystem)
    (hmanifest : readManifest data = .ok (document, offset))
    (hlongest : Record.Longest data offset document.partitions.length payloads) (mode : ScanMode) :
    let run := scanInto files data mode
    (mode ≠ .summary ∧ ∃ path cause, run.result = .error (.write path cause)) ∨
      run.result = recordsResult data document offset payloads ∧
        mode.Leaves files run.sink (Sink.valid (document.partitions.zip payloads)) := by
  cases mode with
  | summary => exact .inr ⟨scanInto_summary_result files hmanifest hlongest, rfl⟩
  | extract dir =>
    intro run
    obtain ⟨hsink, hresult, -⟩ := scanInto_extract_eq hmanifest files dir
    obtain ⟨taken, later, hvalid, hfeed, hend, hrefused⟩ :=
      scanRecords_taken (rfl : (Sink.extract dir).finish = .ok) hlongest ⟨files, []⟩
    cases later with
    | nil =>
      rw [List.append_nil] at hvalid
      obtain ⟨place, hnames, -, hput⟩ := Extraction.exists_of_feed_eq_ok hfeed
      have hdistinct := (names_valid_sublist document.partitions payloads).nodup
        (nodup_names_of_readManifest hmanifest)
      refine .inr ⟨hresult.trans (hend rfl), ?_⟩
      rw [show run.sink = _ from hsink.trans (congrArg Extraction.files hput), hvalid]
      exact leaves_putAll_extracted (hvalid ▸ hdistinct) hnames
    | cons record rest =>
      obtain ⟨e, haccept, he⟩ := hrefused record rest rfl
      obtain ⟨cause, rfl, -⟩ := Extraction.exists_of_accept_eq_error haccept
      exact .inl ⟨nofun, _, cause, hresult.trans he⟩
  | concatenate path =>
    intro run
    cases hcreate : files.create path with
    | error cause =>
      refine .inl ⟨nofun, path, cause, ?_⟩
      simp only [run, scanInto, hmanifest, Aggregate.create, hcreate]
    | ok made =>
      obtain ⟨place, made⟩ := made
      obtain ⟨hnames, -⟩ := FileSystem.create_eq_ok_iff.1 hcreate
      obtain ⟨hsink, hresult⟩ := scanInto_concatenate_eq hlongest hmanifest hnames
      refine .inr ⟨hresult, place, hnames, ?_, ?_⟩
      · rw [show run.sink = _ from hsink, FileSystem.get?_tree_put hnames.ne_nil, if_pos rfl]
      · rw [show run.sink = _ from hsink]
        exact FileSystem.sameExcept_put hnames.ne_nil _

/-- A scan without a header does nothing in any `mode`, and its result is the error `e` of the
header. -/
lemma scanInto_of_readManifest_eq_error (files : FileSystem) {e : BundleError}
    (h : readManifest data = .error e) (mode : ScanMode) :
    (scanInto files data mode).sink = files ∧ (scanInto files data mode).result = .error e := by
  cases mode <;> simp only [scanInto, scan, h, Scan.mapSink, and_self]

/-- **The errors of a scan.** Either there is no header, or a payload cannot be written, or the
records are at fault. Nothing is done in the first case, and in the last the scan leaves what was
valid.

**Proof sketch.** If the header is read, `scanInto_leaves` leaves two cases. In the second the error
is that of the records, and this is their structural fault. -/
theorem scanInto_error_cases {mode : ScanMode} {e : BundleError}
    (h : (scanInto files data mode).result = .error e) :
    let after := (scanInto files data mode).sink
    (readManifest data = .error e ∧ after = files) ∨
    (mode ≠ .summary ∧ ∃ path cause, e = .write path cause) ∨
    ∃ document offset payloads, readManifest data = .ok (document, offset) ∧
      Record.Longest data offset document.partitions.length payloads ∧
      structuralFault data (document.partitions.map (·.name)) offset payloads = some e ∧
      mode.Leaves files after (Sink.valid (document.partitions.zip payloads)) := by
  intro after
  cases hmanifest : readManifest data with
  | error fault =>
    obtain ⟨hafter, hresult⟩ := scanInto_of_readManifest_eq_error files hmanifest mode
    obtain rfl := Except.error.inj (hresult.symm.trans h)
    exact .inl ⟨rfl, hafter⟩
  | ok header =>
    obtain ⟨document, offset⟩ := header
    obtain ⟨payloads, hlongest⟩ := Record.exists_longest data offset document.partitions.length
    rcases scanInto_leaves files hmanifest hlongest mode with
      ⟨hmode, path, cause, hwrite⟩ | ⟨hresult, hleaves⟩
    · exact .inr (.inl ⟨hmode, path, cause, Except.error.inj (h.symm.trans hwrite)⟩)
    · refine .inr (.inr ⟨document, offset, payloads, rfl, hlongest, ?_, hleaves⟩)
      have hfault := hresult.symm.trans h
      rw [recordsResult] at hfault
      split at hfault
      · rename_i hsome
        rw [hsome, Except.error.inj hfault]
      · cases hfault

/-! ### Bundles in files -/

/-- A bundle that can be read at `path` is scanned. -/
lemma scanFile_of_read_eq_ok {path : String} (h : files.read path = .ok data) (mode : ScanMode) :
    scanFile files path mode = scanInto files data mode := by
  simp only [scanFile, readInput, h, Except.mapError]

/-- A bundle that cannot be read at `path` is told, with the `cause`, and nothing is done. -/
lemma scanFile_of_read_eq_error {path : String} {cause : IoFault}
    (h : files.read path = .error cause) (mode : ScanMode) :
    scanFile files path mode = ⟨[], files, .error (.missingInput path cause)⟩ := by
  simp only [scanFile, readInput, h, Except.mapError]

end Leaves

/-! ## Broken dumps -/

/-- **What a scan of a broken dump leaves.** If the header has no end, the files are as they were.
If the records do not fit the header, in whatever way, the scan leaves the valid payloads of the
complete records in front of the fault, each in full, and no change anywhere else: as files of their
own, or one behind the other in the one file for all of them, or not at all.

**Proof sketch.** The dump is read, or else the error would be another one. Of the cases of
`scanInto_error_cases` the second has another error, and the other two are told apart by the reason:
a missing terminator is a fault of the header (`readManifest_eq_error_iff`) and of no record
(`exists_of_structuralFault_eq_some`). -/
theorem scanFile_of_broken {files : FileSystem} {path : String} {mode : ScanMode}
    {reason : BrokenDump} (h : (scanFile files path mode).result = .error (.broken reason)) :
    let after := (scanFile files path mode).sink
    ∃ data, files.read path = .ok data ∧
      (reason = .missingTerminator → Bytes.firstZero data = none ∧ after = files) ∧
      (reason ≠ .missingTerminator → ∃ document offset payloads,
        readManifest data = .ok (document, offset) ∧
        Record.Longest data offset document.partitions.length payloads ∧
        structuralFault data (document.partitions.map (·.name)) offset payloads =
          some (.broken reason) ∧
        mode.Leaves files after (Sink.valid (document.partitions.zip payloads))) := by
  intro after
  cases hread : files.read path with
  | error cause =>
    rw [scanFile_of_read_eq_error hread] at h
    cases h
  | ok data =>
    have hscan := scanFile_of_read_eq_ok hread mode
    rw [hscan] at h
    rw [show after = (scanInto files data mode).sink from congrArg Scan.sink hscan]
    refine ⟨data, rfl, ?_⟩
    rcases scanInto_error_cases h with
      ⟨hmanifest, hafter⟩ | ⟨-, _, _, hwrite⟩ |
        ⟨document, offset, payloads, hmanifest, hlongest, hfault, hleaves⟩
    · rcases readManifest_eq_error_iff.1 hmanifest with ⟨hzero, hreason⟩ | ⟨_, _, -, -, hreason⟩
      · obtain rfl := BundleError.broken.inj hreason
        exact ⟨fun _ => ⟨hzero, hafter⟩, fun hne => absurd rfl hne⟩
      · cases hreason
    · cases hwrite
    · obtain ⟨_, hreason, hne⟩ := exists_of_structuralFault_eq_some hfault
      obtain rfl := BundleError.broken.inj hreason
      exact ⟨fun heq => absurd heq hne, fun _ =>
        ⟨document, offset, payloads, hmanifest, hlongest, hfault, hleaves⟩⟩

/-! ### A dump with a byte too many -/

/-- A bundle of a payload of two bytes and an empty one, with another byte behind it. -/
def Bundle.overlong : ByteArray :=
  twoPayloads.toBytes ++ ⟨#[0]⟩

/-- That dump beside a directory with a file in the place of each payload. -/
def FileSystem.withDump : FileSystem :=
  withOutputs.put ["dump"] Bundle.overlong

/-- The dump `Bundle.overlong` has the header and the records of the bundle, and is refused for the
byte behind them.

**Proof sketch.** What stands behind a bundle does not change its header, nor the row of records
behind that (`Record.Tiles.append_right`). The row has a record for each entry and ends one byte
before the data. -/
private lemma exists_recordsResult_overlong : ∃ offset cursor total,
    readManifest Bundle.overlong = .ok (.bundle Bundle.twoPayloads.manifest, offset) ∧
      Record.Longest Bundle.overlong offset Bundle.twoPayloads.manifest.partitions.length
        Bundle.twoPayloads.payloads ∧
      recordsResult Bundle.overlong (.bundle Bundle.twoPayloads.manifest) offset
        Bundle.twoPayloads.payloads = .error (.broken (.lengthMismatch cursor total)) := by
  have hmanifest := readManifest_toBytes (by decide : Bundle.twoPayloads.manifest.Safe) (by decide)
  obtain ⟨length, hzero, hdocument, hlength⟩ := readManifest_eq_ok_iff.1 hmanifest
  obtain ⟨⟨hlt, -⟩, -⟩ := Bytes.firstZero_eq_some_iff.1 hzero
  have hrow := (tiles_toBytes (by decide :
    ∀ payload ∈ Bundle.twoPayloads.payloads, payload.size < 2 ^ 32)).append_right
      (by omega) ⟨#[0]⟩
  rw [hlength, ByteArray.empty_append] at hrow
  have hle : length + 1 ≤ Bundle.overlong.size := by
    rw [Bundle.overlong, ByteArray.size_append]
    omega
  have hsize : _ + 1 = Bundle.overlong.size := hrow.size_eq hle
  have hfault : structuralFault Bundle.overlong
      ((ManifestDocument.bundle Bundle.twoPayloads.manifest).partitions.map (·.name)) (length + 1)
      Bundle.twoPayloads.payloads = _ := structuralFault_of_ne rfl (by omega)
  exact ⟨length + 1, _, _, readManifest_append_right hzero hdocument ⟨#[0]⟩, hrow.longest rfl,
    by rw [recordsResult, hfault]⟩

/-- The first payload of the dump can be extracted, and there is no other valid one. -/
private lemma extractable_overlong : Extractable .withDump "out" Bundle.overlong := by
  obtain ⟨_, _, _, hmanifest, hpayloads, -⟩ := exists_recordsResult_overlong
  intro document offset payloads hread hlongest spec payload hmem
  obtain ⟨rfl, rfl⟩ := Prod.mk.inj (Except.ok.inj (hmanifest.symm.trans hread))
  obtain rfl := hlongest.unique hpayloads
  replace hmem : (spec, payload) ∈
      [((⟨"a", 2, none, none⟩ : PartitionSpec), (⟨#[7, 0]⟩ : ByteArray))] := hmem
  obtain ⟨rfl, rfl⟩ := Prod.mk.inj (List.mem_singleton.1 hmem)
  exact ⟨by decide, _, rfl⟩

/-- What scans of the dump come to in both modes that write: the same error, and the first payload
in its file or in the one for all. -/
private lemma exists_scanFile_withDump : ∃ reason, reason ≠ .missingTerminator ∧
    (scanFile .withDump "dump" (.extract "out")).result = .error (.broken reason) ∧
    (scanFile .withDump "dump" (.extract "out")).sink =
      FileSystem.withDump.put ["out", "a"] ⟨#[7, 0]⟩ ∧
    (scanFile .withDump "dump" (.concatenate "out/b")).result = .error (.broken reason) ∧
    (scanFile .withDump "dump" (.concatenate "out/b")).sink =
      FileSystem.withDump.put ["out", "b"] ⟨#[7, 0]⟩ := by
  obtain ⟨offset, cursor, total, hmanifest, hlongest, hresult⟩ := exists_recordsResult_overlong
  have hread : ∀ mode, scanFile .withDump "dump" mode =
      scanInto .withDump Bundle.overlong mode := fun _ => rfl
  have hdir : FileSystem.withDump.IsDirectory "out" ["out"] := ⟨rfl, rfl⟩
  have hnames : FileSystem.withDump.Names "out/b" ["out", "b"] :=
    (FileSystem.create_eq_ok_iff.1 rfl).1
  obtain ⟨-, hextract, hextracted⟩ := extractable_overlong.scanInto_eq hdir hmanifest hlongest
  obtain ⟨haggregate, hjoined⟩ := scanInto_concatenate_eq hlongest hmanifest hnames
  rw [hread, hread]
  exact ⟨.lengthMismatch cursor total, nofun, hextracted.trans hresult, hextract,
    hjoined.trans hresult, haggregate⟩

/-- The valid payload of the dump is extracted in place of a longer file, and the file in the place
of the other is left as it is. -/
theorem scanFile_of_broken_withDump :
    ∃ reason after, (scanFile .withDump "dump" (.extract "out")).result =
        .error (.broken reason) ∧
      (scanFile .withDump "dump" (.extract "out")).sink = after ∧
      after.tree.get? ["out", "a"] = some (.file ⟨#[7, 0]⟩) ∧
      after.tree.get? ["out", "b"] = some (.file ⟨#[9]⟩) := by
  obtain ⟨reason, hreason, hresult, -⟩ := exists_scanFile_withDump
  obtain ⟨_, _, _, hmanifest, hlongest, -⟩ := exists_recordsResult_overlong
  obtain ⟨data, hread, -, hrest⟩ := scanFile_of_broken hresult
  obtain rfl : Bundle.overlong = data := Except.ok.inj hread
  obtain ⟨document, offset, payloads, hread, hpayloads, -, place, hvalid, hexcept⟩ := hrest hreason
  obtain ⟨rfl, rfl⟩ := Prod.mk.inj (Except.ok.inj (hmanifest.symm.trans hread))
  obtain rfl := hpayloads.unique hlongest
  obtain ⟨-, hnames, hfile⟩ := hvalid (⟨"a", 2, none, none⟩, ⟨#[7, 0]⟩) (.head _)
  have hplace : place ++ ["a"] = ["out"] ++ ["a"] :=
    hnames.eq_of_walk rfl (by decide)
  obtain rfl : place = ["out"] := List.append_cancel_right hplace
  exact ⟨reason, _, hresult, rfl, hfile, hexcept.get?_eq ["out", "b"] (by decide)⟩

/-- So it is not true that a broken dump leaves every file of the directory, or the one file for all
payloads, as it was: the dump `Bundle.overlong` changes both. -/
theorem not_forall_scanFile_broken_unchanged :
    (¬ ∀ files path dir place reason, FileSystem.IsDirectory files dir place →
      (scanFile files path (.extract dir)).result = .error (.broken reason) →
      ∀ name, (scanFile files path (.extract dir)).sink.tree.get? (place ++ [name]) =
        files.tree.get? (place ++ [name])) ∧
    ¬ ∀ files path target place made reason,
      FileSystem.create files target = .ok (place, made) →
      (scanFile files path (.concatenate target)).result = .error (.broken reason) →
      (scanFile files path (.concatenate target)).sink.tree.get? place =
        files.tree.get? place := by
  obtain ⟨reason, -, hextract, hextracted, haggregate, hjoined⟩ := exists_scanFile_withDump
  refine ⟨fun hunchanged => ?_, fun hunchanged => ?_⟩
  · have hfile := hunchanged .withDump "dump" "out" ["out"] reason ⟨rfl, rfl⟩ hextract "a"
    rw [hextracted] at hfile
    cases hfile
  · have hfile := hunchanged .withDump "dump" "out/b" ["out", "b"] _ reason rfl haggregate
    rw [hjoined] at hfile
    cases hfile

end FirmwareBundle
