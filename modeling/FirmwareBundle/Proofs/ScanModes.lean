import FirmwareBundle.Proofs.Aggregate
import FirmwareBundle.Proofs.Extraction
/-!
# The modes of a scan agree

Where a scan can write all that it has to write, its mode makes no difference to its result. The
payloads that the report counts as valid are in the files of an extraction, and one behind the other
in the one file of the other mode.

## Main definitions

* `FirmwareBundle.Extractable` — every valid payload can be written into a directory.

## Main results

* `FirmwareBundle.Extractable.scanInto_eq` — what a scan extracts that nothing stops.
* `FirmwareBundle.scanInto_modes` — the three modes have one result.
-/

namespace FirmwareBundle

variable {files : FileSystem} {dir path : String} {place : Location} {data : ByteArray}
  {document : ManifestDocument} {offset : Nat} {payloads : List ByteArray}

/-- Every valid payload of the complete records in `data` can be written into `dir`: its name is
plain, and a file can be written at the path made of it. -/
def Extractable (files : FileSystem) (dir : String) (data : ByteArray) : Prop :=
  ∀ document offset payloads, readManifest data = .ok (document, offset) →
    Record.Longest data offset document.partitions.length payloads →
      ∀ spec payload, (spec, payload) ∈ Sink.valid (document.partitions.zip payloads) →
        Path.isPlainName spec.name ∧
          ∃ written, files.write (Path.join dir spec.name) payload = .ok written

/-- **The extraction of all valid payloads** puts each at its place in the directory `dir`, and the
records alone decide the result.

**Proof sketch.** A file that can be written has a path that leads to a place
(`FileSystem.IsDirectory.write_join_eq_ok_iff`), so the sink takes all valid payloads
(`Extraction.feed_eq_ok_iff`), and `scanRecords_of_feed` says what ends the scan. -/
theorem Extractable.scanInto_eq (h : Extractable files dir data)
    (hdir : files.IsDirectory dir place) (hmanifest : readManifest data = .ok (document, offset))
    (hlongest : Record.Longest data offset document.partitions.length payloads) :
    let valid := Sink.valid (document.partitions.zip payloads)
    (∀ record ∈ valid,
      files.Names (Path.join dir record.1.name) (place ++ [record.1.name])) ∧
    (scanInto files data (.extract dir)).sink = files.putAll (extracted place valid) ∧
    (scanInto files data (.extract dir)).result = recordsResult data document offset payloads := by
  intro valid
  have hvalid : ∀ record ∈ valid, Path.isPlainName record.1.name ∧
      files.Names (Path.join dir record.1.name) (place ++ [record.1.name]) := by
    intro record hrecord
    obtain ⟨hplain, written, hwrite⟩ :=
      h document offset payloads hmanifest hlongest record.1 record.2 hrecord
    exact ⟨hplain, ((hdir.write_join_eq_ok_iff hplain).1 hwrite).1⟩
  have hfeed : (Sink.extract dir).feed ⟨files, []⟩ valid = .ok _ :=
    (Extraction.feed_eq_ok_iff hdir.walk).2 ⟨hvalid, rfl⟩
  obtain ⟨hsink, hresult⟩ := scanRecords_of_feed hlongest hfeed rfl
  obtain ⟨hrun, hrunResult, -⟩ := scanInto_extract_eq hmanifest files dir
  refine ⟨fun record hrecord => (hvalid record hrecord).2, ?_, hrunResult.trans hresult⟩
  rw [hrun, or_self_iff.1 hsink]

/-- A scan that only tells what is in a bundle is decided by the records, since the sink that
discards payloads never fails. -/
lemma scanInto_summary_result (files : FileSystem)
    (hmanifest : readManifest data = .ok (document, offset))
    (hlongest : Record.Longest data offset document.partitions.length payloads) :
    (scanInto files data .summary).result = recordsResult data document offset payloads :=
  (result_scan hmanifest ()).trans (scanRecords_result Sink.discard_neverFails hlongest ())

/-- **The three modes have one result**, where the payloads can be extracted and the file for all of
them can be made.

If it is a report, the bundle is a row of records for all entries of the table. The valid payloads
of the row, which the report counts, are read from the files of the extraction, and one behind the
other from the file in which they are put together.

**Proof sketch.** Each mode is decided by the records where nothing stops it: the summary by
`scanInto_summary_result`, the extraction by `Extractable.scanInto_eq`, the aggregate by
`scanInto_concatenate_eq`. These also say what is in the files, and `filter_isOk_eq_map` that these
are the payloads of the valid outcomes. -/
theorem scanInto_modes (hdir : files.IsDirectory dir place) (hextract : Extractable files dir data)
    (hcreate : ∃ target made, files.create path = .ok (target, made)) :
    let summary := scanInto files data .summary
    let extraction := scanInto files data (.extract dir)
    let aggregate := scanInto files data (.concatenate path)
    extraction.result = summary.result ∧ aggregate.result = summary.result ∧
    ∀ report, summary.result = .ok report →
      ∃ document offset payloads, readManifest data = .ok (document, offset) ∧
        payloads.length = document.partitions.length ∧
        Record.Tiles data offset payloads .empty ∧
        let valid := Sink.valid (document.partitions.zip payloads)
        report.outcomes.filter (·.isOk) = valid.map (fun record =>
          .ok record.1.name record.2.size (shortDigest record.2)) ∧
        ∃ contents, contents = valid.map (·.2) ∧
          (report.outcomes.filter (·.isOk)).map
              (fun outcome => extraction.sink.read (Path.join dir outcome.name)) =
            contents.map .ok ∧
          aggregate.sink.read path = .ok (Bytes.joined contents) := by
  intro summary extraction aggregate
  obtain ⟨target, made, hmade⟩ := hcreate
  obtain ⟨hnames, rfl⟩ := FileSystem.create_eq_ok_iff.1 hmade
  cases hmanifest : readManifest data with
  | error e =>
    have hsummary : summary.result = .error e := by
      simp only [summary, scanInto, scan, hmanifest, Scan.mapSink]
    refine ⟨?_, ?_, fun report hok => ?_⟩
    · simp only [extraction, scanInto, scan, hmanifest, Scan.mapSink, hsummary]
    · simp only [aggregate, scanInto, hmanifest, hsummary]
    · cases hsummary.symm.trans hok
  | ok header =>
    obtain ⟨document, offset⟩ := header
    obtain ⟨payloads, hlongest⟩ := Record.exists_longest data offset document.partitions.length
    have hsummary : summary.result = _ := scanInto_summary_result files hmanifest hlongest
    obtain ⟨hplaces, hextraction, hextracted⟩ := hextract.scanInto_eq hdir hmanifest hlongest
    obtain ⟨haggregate, hjoined⟩ := scanInto_concatenate_eq hlongest hmanifest hnames
    refine ⟨hextracted.trans hsummary.symm, hjoined.trans hsummary.symm, fun report hok => ?_⟩
    have hreport := hsummary.symm.trans hok
    obtain ⟨hlen, htiles⟩ := tiles_of_recordsResult hmanifest hlongest hreport
    obtain ⟨-, rfl⟩ := recordsResult_eq_ok_iff.1 hreport
    have houtcomes := filter_isOk_eq_map document.partitions payloads
    refine ⟨document, offset, payloads, rfl, hlen, htiles, houtcomes, _, rfl, ?_, ?_⟩
    · rw [houtcomes, List.map_map, List.map_map]
      apply List.map_congr_left
      intro record hrecord
      have hdistinct := (names_valid_sublist document.partitions payloads).nodup
        (nodup_names_of_readManifest hmanifest)
      show extraction.sink.read (Path.join dir record.1.name) = .ok record.2
      rw [show extraction.sink = _ from hextraction]
      exact (read_extracted hplaces hdistinct hrecord).2
    · rw [show aggregate.sink = _ from haggregate]
      exact hnames.read_put _

/-- What can be extracted of a bundle of a payload of two bytes and an empty one: the only valid
payload is the first. -/
private lemma extractable_twoPayloads :
    Extractable .withOutputs "out" Bundle.twoPayloads.toBytes := by
  have hmanifest := readManifest_toBytes (by decide : Bundle.twoPayloads.manifest.Safe) (by decide)
  intro document offset payloads hread hlongest spec payload hmem
  obtain ⟨rfl, rfl⟩ := Prod.mk.inj (Except.ok.inj (hmanifest.symm.trans hread))
  obtain rfl := hlongest.unique (longest_toBytes (by decide) rfl)
  replace hmem : (spec, payload) ∈
      [((⟨"a", 2, none, none⟩ : PartitionSpec), (⟨#[7, 0]⟩ : ByteArray))] := hmem
  obtain ⟨rfl, rfl⟩ := Prod.mk.inj (List.mem_singleton.1 hmem)
  exact ⟨by decide, _, rfl⟩

/-- That bundle is scanned with one result in all modes, and of its two payloads the file for all of
them holds the valid one. -/
theorem scanInto_modes_twoPayloads :
    FileSystem.withOutputs.IsDirectory "out" ["out"] ∧
      Extractable .withOutputs "out" Bundle.twoPayloads.toBytes ∧
      (∃ target made, FileSystem.withOutputs.create "all" = .ok (target, made)) ∧
      (∃ report,
        (scanInto .withOutputs Bundle.twoPayloads.toBytes .summary).result = .ok report ∧
        (scanInto .withOutputs Bundle.twoPayloads.toBytes (.extract "out")).result = .ok report ∧
        (scanInto .withOutputs Bundle.twoPayloads.toBytes (.concatenate "all")).result =
          .ok report) ∧
      (scanInto .withOutputs Bundle.twoPayloads.toBytes (.concatenate "all")).sink.read "all" =
        .ok ⟨#[7, 0]⟩ := by
  have hcreate : ∃ target made, FileSystem.withOutputs.create "all" = .ok (target, made) :=
    ⟨_, _, rfl⟩
  have hshort : ∀ payload ∈ Bundle.twoPayloads.payloads, payload.size < 2 ^ 32 := by decide
  have hmanifest := readManifest_toBytes (by decide : Bundle.twoPayloads.manifest.Safe) (by decide)
  have hlongest := longest_toBytes hshort rfl
  have hsummary := (scanInto_summary_result .withOutputs hmanifest hlongest).trans
    (recordsResult_toBytes hshort rfl)
  obtain ⟨hextract, haggregate, hreport⟩ :=
    scanInto_modes FileSystem.isDirectory_withOutputs extractable_twoPayloads hcreate
  refine ⟨FileSystem.isDirectory_withOutputs, extractable_twoPayloads, hcreate,
    ⟨_, hsummary, hextract.trans hsummary, haggregate.trans hsummary⟩, ?_⟩
  obtain ⟨document, offset, payloads, hread, hlen, htiles, -, contents, hcontents, -, hjoined⟩ :=
    hreport _ hsummary
  obtain ⟨rfl, rfl⟩ := Prod.mk.inj (Except.ok.inj (hmanifest.symm.trans hread))
  obtain rfl := (htiles.longest hlen).unique hlongest
  have hbytes : contents = [⟨#[7, 0]⟩] := hcontents
  rw [hbytes] at hjoined
  exact hjoined

end FirmwareBundle
