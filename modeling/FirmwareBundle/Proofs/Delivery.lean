import FirmwareBundle.Proofs.HeaderTexts
import FirmwareBundle.Proofs.PrefixFree
import FirmwareBundle.Proofs.SinkCalls
/-!
# Payloads that reach a sink

A sink that has nothing left to do at the end is left in the state that the payloads it took brought
it to, whatever ends the scan. These are the valid payloads of the complete records up to the first
that it refuses. They belong to distinct names, and a report counts them.

## Main results

* `FirmwareBundle.scanRecords_taken` — the payloads that a sink takes, and what ends the scan.
* `FirmwareBundle.scanRecords_of_feed` — what ends the scan if a sink takes all.
* `FirmwareBundle.nodup_names_of_readManifest` — the names in a table are distinct.
* `FirmwareBundle.validCount_of_recordsResult` — a report counts the valid payloads.
-/

namespace FirmwareBundle

variable {σ : Type} {data : ByteArray} {document : ManifestDocument} {offset : Nat}
  {payloads : List ByteArray}

/-! ## The end of a scan -/

/-- **The payloads that a sink takes** are the valid ones up to the first that it refuses. If it
refuses none, so that `later` is empty, the records alone decide the result; otherwise the refusal
of the first in `later` is the result.

**Proof sketch.** The calls that are due are one for each valid payload, and perhaps one at the end
(`scanRecords_due`). The call at the end leaves the state as it is, by `hfinish`, and cannot be
refused. So a call that is refused is one for a payload, and the calls before it are those for the
payloads in front of it. -/
theorem scanRecords_taken {sink : Sink σ} (hfinish : sink.finish = .ok)
    (h : Record.Longest data offset document.partitions.length payloads) (state : σ) :
    let run := scanRecords sink data document offset state
    ∃ taken later, Sink.valid (document.partitions.zip payloads) = taken ++ later ∧
      sink.feed state taken = .ok run.sink ∧
      (later = [] → run.result = recordsResult data document offset payloads) ∧
      ∀ record rest, later = record :: rest →
        ∃ e, sink.accept run.sink record.1 record.2 = .error e ∧ run.result = .error e := by
  intro run
  rcases scanRecords_due sink h state with
    ⟨last, hlast, -, hsink, hresult⟩ |
      ⟨made, call, later, middle, e, hdue, hmade, hrefused, -, hsink, hresult⟩
  · obtain ⟨fed, hfed, hrest⟩ := Sink.respondAll_append_eq_ok_iff.1 hlast
    rw [Sink.respondAll_map_ofRecord] at hfed
    have hend : fed = last := by
      split at hrest
      · rw [Sink.respondAll_cons, Sink.respond, hfinish] at hrest
        exact Except.ok.inj hrest
      · exact Except.ok.inj hrest
    refine ⟨_, [], (List.append_nil _).symm, ?_, fun _ => hresult,
      fun record rest h => absurd h.symm (List.cons_ne_nil record rest)⟩
    rw [hfed, hend, ← hsink]
  · rcases exists_of_dueCalls_eq hdue with
      ⟨front, record, back, hvalid, rfl, rfl⟩ | ⟨-, -, rfl⟩
    · rw [Sink.respondAll_map_ofRecord, ← hsink] at hmade
      refine ⟨front, record :: back, hvalid, hmade, fun h => absurd h (List.cons_ne_nil _ _), ?_⟩
      rintro _ _ ⟨⟩
      rw [← hsink] at hrefused
      exact ⟨e, hrefused, hresult⟩
    · rw [Sink.respond, hfinish] at hrefused
      cases hrefused

/-- **If a sink takes all valid payloads**, which brings it to `fed`, the records alone decide the
result. At the end the sink may be told that there are no more, which brings it to `last`. -/
theorem scanRecords_of_feed {sink : Sink σ} {state fed last : σ}
    (h : Record.Longest data offset document.partitions.length payloads)
    (hfeed : sink.feed state (Sink.valid (document.partitions.zip payloads)) = .ok fed)
    (hfinish : sink.finish fed = .ok last) :
    let run := scanRecords sink data document offset state
    (run.sink = fed ∨ run.sink = last) ∧
      run.result = recordsResult data document offset payloads := by
  intro run
  obtain ⟨tail, htiles⟩ := h.tiles
  rcases Nat.lt_or_eq_of_le h.length_le with hlt | hlen
  · have hrun : run = _ := scanRecords_of_length_lt h hlt hfeed
    rw [hrun]
    exact ⟨.inl rfl, rfl⟩
  · have hrun : run = _ := scanRecords_of_length_eq htiles hlen hfeed
    simp only [hfinish] at hrun
    rw [hrun]
    exact ⟨.inr rfl, rfl⟩

/-! ## Names -/

/-- **The names in a table are distinct**, or else the header is not read.

**Proof sketch.** A header that is read is text up to the first zero, and its document has passed
the check of the names (`ManifestDocument.requireDistinct_eq_ok_iff`). -/
theorem nodup_names_of_readManifest (h : readManifest data = .ok (document, offset)) :
    (document.partitions.map (·.name)).Nodup := by
  obtain ⟨length, -, htext, -⟩ := readManifest_eq_ok_iff.1 h
  rw [ManifestDocument.ofText] at htext
  split at htext
  · cases htext
  · rename_i value _
    cases hvalue : ManifestDocument.ofValue value with
    | error fault =>
      rw [hvalue] at htext
      cases htext
    | ok read =>
      rw [hvalue] at htext
      obtain ⟨hdistinct, rfl⟩ := ManifestDocument.requireDistinct_eq_ok_iff.1 htext
      exact hdistinct

/-- The names of the records of a row are names in the table `specs`, in its order, however many
`payloads` there are. -/
lemma names_zip_sublist (specs : List PartitionSpec) (payloads : List ByteArray) :
    ((specs.zip payloads).map (·.1.name)).Sublist (specs.map (·.name)) := by
  induction specs generalizing payloads with
  | nil => exact List.Sublist.refl []
  | cons spec specs ih =>
    cases payloads with
    | nil => exact List.nil_sublist _
    | cons payload payloads => exact (ih payloads).cons_cons spec.name

/-- The names of the valid payloads are names in the table `specs`, in its order. -/
lemma names_valid_sublist (specs : List PartitionSpec) (payloads : List ByteArray) :
    ((Sink.valid (specs.zip payloads)).map (·.1.name)).Sublist (specs.map (·.name)) :=
  (List.filter_sublist.map _).trans (names_zip_sublist specs payloads)

/-- The name of a `payload` that is not valid for `spec` is that of no valid one, where the names in
`records` are distinct. -/
lemma Sink.name_notMem_valid {records : List (PartitionSpec × ByteArray)} {spec : PartitionSpec}
    {payload : ByteArray} (hdistinct : (records.map (·.1.name)).Nodup)
    (hmem : (spec, payload) ∈ records) (hinvalid : ¬(Outcome.classify spec payload).isOk) :
    spec.name ∉ (valid records).map (·.1.name) := by
  intro hname
  obtain ⟨record, hrecord, heq⟩ := List.mem_map.1 hname
  obtain ⟨hrecords, hok⟩ := List.mem_filter.1 hrecord
  obtain rfl : record = (spec, payload) :=
    List.inj_on_of_nodup_map hdistinct hrecords hmem heq
  exact hinvalid hok

/-! ## Reports -/

/-- The valid outcomes of `payloads` against `specs` are those of the valid payloads, each with its
own length and digest. -/
lemma filter_isOk_eq_map (specs : List PartitionSpec) (payloads : List ByteArray) :
    (List.zipWith Outcome.classify specs payloads).filter (·.isOk) =
      (Sink.valid (specs.zip payloads)).map fun record =>
        .ok record.1.name record.2.size (shortDigest record.2) := by
  rw [Outcome.zipWith_classify, List.filter_map]
  apply List.map_congr_left
  intro record hrecord
  exact Outcome.classify_of_isOk (List.mem_filter.1 hrecord).2

/-- There is a `report` of the records if and only if nothing is wrong with their structure, and it
holds each payload against its entry. -/
lemma recordsResult_eq_ok_iff {report : ScanReport} :
    recordsResult data document offset payloads = .ok report ↔
      structuralFault data (document.partitions.map (·.name)) offset payloads = none ∧
        report = ⟨document.shape, List.zipWith Outcome.classify document.partitions payloads,
          data.size⟩ := by
  rw [recordsResult]
  split
  · rename_i e hfault
    simp [hfault]
  · rename_i hfault
    simp [hfault, eq_comm]

/-- **A report counts the valid payloads**: `report.validCount` is the number of those that reach a
sink (`filter_isOk_eq_map`). -/
theorem validCount_of_recordsResult {report : ScanReport}
    (h : recordsResult data document offset payloads = .ok report) :
    report.validCount = (Sink.valid (document.partitions.zip payloads)).length := by
  obtain ⟨-, rfl⟩ := recordsResult_eq_ok_iff.1 h
  rw [ScanReport.validCount, List.countP_eq_length_filter, filter_isOk_eq_map, List.length_map]

/-- Behind a `report` the longest row has a record for each entry and ends with the data. -/
lemma Record.Longest.end_of_recordsResult {report : ScanReport}
    (hlongest : Record.Longest data offset document.partitions.length payloads)
    (h : recordsResult data document offset payloads = .ok report) :
    payloads.length = document.partitions.length ∧
      offset + (Record.encodeAll payloads).size = data.size := by
  obtain ⟨hfault, -⟩ := recordsResult_eq_ok_iff.1 h
  have hnames : (document.partitions.map (·.name)).length = document.partitions.length :=
    List.length_map _
  rw [← hnames] at hlongest ⊢
  exact hlongest.structuralFault_eq_none_iff.1 hfault

/-- There is a `report` only of a row of records for all entries that fills the data behind the
header.

**Proof sketch.** The longest row ends with the data (`Record.Longest.end_of_recordsResult`), and it
starts inside them, since the header ends with a zero byte there. So what follows it is empty. -/
lemma tiles_of_recordsResult {report : ScanReport}
    (hmanifest : readManifest data = .ok (document, offset))
    (hlongest : Record.Longest data offset document.partitions.length payloads)
    (h : recordsResult data document offset payloads = .ok report) :
    payloads.length = document.partitions.length ∧ Record.Tiles data offset payloads .empty := by
  obtain ⟨length, hzero, -, rfl⟩ := readManifest_eq_ok_iff.1 hmanifest
  obtain ⟨⟨hle, -⟩, -⟩ := Bytes.firstZero_eq_some_iff.1 hzero
  obtain ⟨hlen, hend⟩ := hlongest.end_of_recordsResult h
  obtain ⟨tail, htiles⟩ := hlongest.tiles
  have hsize := htiles.size_eq hle
  obtain rfl : tail = .empty := ByteArray.size_eq_zero_iff.1 (by omega)
  exact ⟨hlen, htiles⟩

/-! ## Bundles that were written -/

/-- The longest row behind the header of `bundle` is that of its payloads, if there is one for each
entry. -/
lemma longest_toBytes {bundle : Bundle}
    (hshort : ∀ payload ∈ bundle.payloads, payload.size < 2 ^ 32)
    (hlen : bundle.payloads.length = bundle.manifest.partitions.length) :
    Record.Longest bundle.toBytes (bundle.manifest.header.size + 1)
      bundle.manifest.partitions.length bundle.payloads :=
  (tiles_toBytes hshort).longest hlen

/-- The records of a `bundle` with an entry for each payload are held against the table: nothing is
wrong with their structure, since they fill the bytes behind the header. -/
lemma recordsResult_toBytes {bundle : Bundle}
    (hshort : ∀ payload ∈ bundle.payloads, payload.size < 2 ^ 32)
    (hlen : bundle.payloads.length = bundle.manifest.partitions.length) :
    recordsResult bundle.toBytes (.bundle bundle.manifest) (bundle.manifest.header.size + 1)
        bundle.payloads =
      .ok ⟨.bundle, List.zipWith Outcome.classify bundle.manifest.partitions bundle.payloads,
        bundle.toBytes.size⟩ := by
  have hsize : bundle.manifest.header.size + 1 ≤ bundle.toBytes.size := by
    have hzero : (⟨#[0]⟩ : ByteArray).size = 1 := rfl
    simp only [bundle.toBytes_eq, ByteArray.size_append, hzero]
    omega
  have hend := (tiles_toBytes hshort).size_eq hsize
  rw [ByteArray.size_empty, Nat.add_zero] at hend
  rw [recordsResult, structuralFault_eq_none (by rw [List.length_map]; exact hlen) hend]
  rfl

end FirmwareBundle
