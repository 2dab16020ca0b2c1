import FirmwareBundle.Proofs.Scan
/-!
# Which records a scan accepts

With a sink that never fails the scan of a table of `n` entries succeeds exactly where `n` complete
records fill the data from the offset on. Where they do not, the longest row of complete records
says which fault is reported.

## Main definitions

* `FirmwareBundle.structuralFault` — the fault in the records behind an offset.
* `FirmwareBundle.recordsResult` — the result that follows from it.

## Main results

* `FirmwareBundle.scanRecords_result` — the result of a scan, from the longest row of records.
* `FirmwareBundle.scanRecords_ok_iff_tiles` — the scans that succeed, with their reports.
* `FirmwareBundle.scanRecords_error_of_longest` — the scans that fail, with their errors.
-/

namespace FirmwareBundle

variable {σ : Type}

/-! ## The result of a scan -/

/-- The fault in the records behind `offset`, if there is one, from the `names` in the table and the
longest row of records there, that of `payloads`. -/
def structuralFault (data : ByteArray) (names : List String) (offset : Nat)
    (payloads : List ByteArray) : Option BundleError :=
  let cursor := offset + (Record.encodeAll payloads).size
  match names.drop payloads.length with
  | name :: _ =>
    match Record.read data cursor with
    | .error fault => some (fault.toError name payloads.length names.length cursor)
    | .ok _ => none
  | [] => if cursor = data.size then none else some (.broken (.lengthMismatch cursor data.size))

/-- The result that the longest row of records, that of `payloads`, decides if the sink refuses
nothing. -/
def recordsResult (data : ByteArray) (document : ManifestDocument) (offset : Nat)
    (payloads : List ByteArray) : Except BundleError ScanReport :=
  match structuralFault data (document.partitions.map (·.name)) offset payloads with
  | some e => .error e
  | none => .ok ⟨document.shape, List.zipWith Outcome.classify document.partitions payloads,
      data.size⟩

section Result

variable {sink : Sink σ} {data tail : ByteArray} {document : ManifestDocument} {offset : Nat}
  {payloads : List ByteArray} {state fed : σ}

/-- A row of as many records as `limit` allows is a longest one. -/
lemma Record.Tiles.longest {limit : Nat} (h : Record.Tiles data offset payloads tail)
    (hlen : payloads.length = limit) :
    Record.Longest data offset limit payloads :=
  ⟨⟨tail, h⟩, Nat.le_of_eq hlen, fun _ _ _ hle => hlen ▸ hle⟩

/-- There is no fault in a row of one record for each of `names` that ends with the data. -/
lemma structuralFault_eq_none {names : List String} (hlen : payloads.length = names.length)
    (hend : offset + (Record.encodeAll payloads).size = data.size) :
    structuralFault data names offset payloads = none := by
  rw [structuralFault, List.drop_eq_nil_of_le (Nat.le_of_eq hlen.symm)]
  exact if_pos hend

/-- Bytes behind a row of one record for each of `names` are a fault, a `lengthMismatch` between the
end of the row and that of the data. -/
lemma structuralFault_of_ne {names : List String} (hlen : payloads.length = names.length)
    (hend : offset + (Record.encodeAll payloads).size ≠ data.size) :
    structuralFault data names offset payloads =
      some (.broken (.lengthMismatch (offset + (Record.encodeAll payloads).size) data.size)) := by
  rw [structuralFault, List.drop_eq_nil_of_le (Nat.le_of_eq hlen.symm)]
  exact if_neg hend

/-- A name that no record can be read for is a fault: the first of `names` behind those that have a
record, with the `fault` of the reading. -/
lemma structuralFault_of_lt {names : List String} {fault : Record.Fault}
    (hlt : payloads.length < names.length)
    (hread : Record.read data (offset + (Record.encodeAll payloads).size) = .error fault) :
    structuralFault data names offset payloads =
      some (fault.toError names[payloads.length] payloads.length names.length
        (offset + (Record.encodeAll payloads).size)) := by
  rw [structuralFault, List.drop_eq_getElem_cons hlt]
  simp only [hread]

/-- The scan of a row whose valid payloads are taken, which brings the sink to `fed`, where a record
is missing behind it. By `Record.Longest.fault` none can be read there, so the scan ends with that
fault. -/
lemma scanRecords_of_length_lt
    (h : Record.Longest data offset document.partitions.length payloads)
    (hlt : payloads.length < document.partitions.length)
    (hfeed : sink.feed state (Sink.valid (document.partitions.zip payloads)) = .ok fed) :
    scanRecords sink data document offset state =
      ⟨ScanEvent.ofRecords offset (document.partitions.zip payloads), fed,
        recordsResult data document offset payloads⟩ := by
  obtain ⟨tail, htiles⟩ := h.tiles
  obtain ⟨fault, hfault⟩ := h.fault hlt
  rw [scanRecords, scanFrom_tiles htiles h.length_le hfeed, List.drop_eq_getElem_cons hlt, scanFrom,
    hfault, recordsResult, structuralFault_of_lt (by simpa using hlt) hfault]
  simp [Scan.after, Scan.map, Except.map]

/-- The scan of a row with a record for each entry whose valid payloads are taken, which brings the
sink to `fed`. Then the sink is told that there are no more, and only if it does not fail, the end
of the row is held against that of the data. -/
lemma scanRecords_of_length_eq (htiles : Record.Tiles data offset payloads tail)
    (hlen : payloads.length = document.partitions.length)
    (hfeed : sink.feed state (Sink.valid (document.partitions.zip payloads)) = .ok fed) :
    scanRecords sink data document offset state =
      let events := ScanEvent.ofRecords offset (document.partitions.zip payloads) ++ [.finished]
      match sink.finish fed with
      | .error e => ⟨events, fed, .error e⟩
      | .ok last => ⟨events, last, recordsResult data document offset payloads⟩ := by
  rw [scanRecords, scanFrom_tiles htiles (Nat.le_of_eq hlen) hfeed, hlen, List.drop_length,
    scanFrom, finishScan]
  cases sink.finish fed with
  | error e => rfl
  | ok last =>
    by_cases hend : offset + (Record.encodeAll payloads).size = data.size
    · rw [recordsResult, structuralFault_eq_none (by simpa using hlen) hend]
      simp [Scan.after, Scan.map, Except.map, hend]
    · rw [recordsResult, structuralFault_of_ne (by simpa using hlen) hend]
      simp [Scan.after, Scan.map, Except.map, hend]

/-- **The result of a scan.** With a sink that never fails the longest row of records decides
whether a scan fails; if it does not, the entries of the table are held against `payloads`.

**Proof sketch.** The sink takes all valid payloads. Either the row has fewer records than the table
has entries (`scanRecords_of_length_lt`), or one for each (`scanRecords_of_length_eq`). -/
theorem scanRecords_result (hs : sink.NeverFails)
    (h : Record.Longest data offset document.partitions.length payloads) (state : σ) :
    (scanRecords sink data document offset state).result =
      match structuralFault data (document.partitions.map (·.name)) offset payloads with
      | some e => .error e
      | none => .ok ⟨document.shape,
          List.zipWith Outcome.classify document.partitions payloads, data.size⟩ := by
  obtain ⟨tail, htiles⟩ := h.tiles
  obtain ⟨fed, hfed⟩ := hs.exists_feed state (Sink.valid (document.partitions.zip payloads))
  rcases Nat.lt_or_eq_of_le h.length_le with hlt | hlen
  · rw [scanRecords_of_length_lt h hlt hfed]
    rfl
  · obtain ⟨last, hlast⟩ := hs.finish fed
    simp only [scanRecords_of_length_eq htiles hlen hfed, hlast]
    rfl

/-- There is a fault behind `offset` unless the longest row there has one record for each of `names`
and ends with the data.

**Proof sketch.** If the row is shorter, no record can be read behind it (`Record.Longest.fault`),
and this is a fault. If it is not, there is a fault unless the row ends with the data. -/
lemma Record.Longest.structuralFault_eq_none_iff {names : List String}
    (h : Record.Longest data offset names.length payloads) :
    structuralFault data names offset payloads = none ↔
      payloads.length = names.length ∧
        offset + (Record.encodeAll payloads).size = data.size := by
  refine ⟨fun hnone => ?_, fun ⟨hlen, hend⟩ => structuralFault_eq_none hlen hend⟩
  rcases Nat.lt_or_eq_of_le h.length_le with hlt | hlen
  · obtain ⟨fault, hfault⟩ := h.fault hlt
    rw [structuralFault_of_lt hlt hfault] at hnone
    cases hnone
  · by_cases hend : offset + (Record.encodeAll payloads).size = data.size
    · exact ⟨hlen, hend⟩
    · rw [structuralFault_of_ne hlen hend] at hnone
      cases hnone

/-- A row of one record for each entry that fills the data is accepted, and the entries are held
against `payloads`. Such a row is a longest one, and there is no fault in it
(`structuralFault_eq_none`). -/
lemma scanRecords_of_tiles (hs : sink.NeverFails) (ho : offset ≤ data.size)
    (hlen : payloads.length = document.partitions.length)
    (htiles : Record.Tiles data offset payloads .empty) (state : σ) :
    (scanRecords sink data document offset state).result = .ok ⟨document.shape,
      List.zipWith Outcome.classify document.partitions payloads, data.size⟩ := by
  have hend := htiles.size_eq ho
  rw [ByteArray.size_empty, Nat.add_zero] at hend
  rw [scanRecords_result hs (htiles.longest hlen),
    structuralFault_eq_none (by simpa using hlen) hend]

/-- A scan that succeeds has passed a row of one record for each entry that fills the data.

**Proof sketch.** The result is that of the longest row (`scanRecords_result`). There is no fault in
it, so it has a record for each entry, and nothing is left behind it
(`Record.Longest.structuralFault_eq_none_iff`). -/
lemma exists_tiles_of_scanRecords_eq_ok (hs : sink.NeverFails) (ho : offset ≤ data.size)
    {state : σ} {report : ScanReport}
    (hok : (scanRecords sink data document offset state).result = .ok report) :
    ∃ payloads, payloads.length = document.partitions.length ∧
      Record.Tiles data offset payloads .empty := by
  obtain ⟨payloads, h⟩ := Record.exists_longest data offset
    (document.partitions.map (·.name)).length
  obtain ⟨tail, htiles⟩ := h.tiles
  have hsize := htiles.size_eq ho
  rw [scanRecords_result hs (by rwa [List.length_map] at h)] at hok
  split at hok
  · cases hok
  · rename_i hnone
    obtain ⟨hlen, hend⟩ := h.structuralFault_eq_none_iff.1 hnone
    obtain rfl : tail = .empty := ByteArray.size_eq_zero_iff.1 (by omega)
    exact ⟨payloads, by simpa using hlen, htiles⟩

end Result

/-! ## Scans that succeed -/

/-- **The grammar of records.** With a `sink` that never fails, a scan succeeds if and only if one
complete record for each entry of the table fills `data` from `offset` on. The `payloads` are then
unique, and the report holds the outcome for each entry and its payload.

**Proof sketch.** A row of `payloads` that fills `data` is a longest one without a fault, so it is
accepted (`scanRecords_of_tiles`). Conversely the longest row of a scan that succeeds must have one
record for each entry, or the next record would be missing, and must end with the data
(`exists_tiles_of_scanRecords_eq_ok`). Two rows of one length are the same
(`Record.Tiles.eq_of_length_eq`). -/
theorem scanRecords_ok_iff_tiles (sink : Sink σ) (hs : sink.NeverFails) (data : ByteArray)
    (document : ManifestDocument) {offset : Nat} (ho : offset ≤ data.size) (state : σ) :
    ((∃ report, (scanRecords sink data document offset state).result = .ok report) ↔
      ∃ payloads, payloads.length = document.partitions.length ∧
        Record.Tiles data offset payloads .empty) ∧
    ∀ payloads, payloads.length = document.partitions.length →
      Record.Tiles data offset payloads .empty →
        (∀ others, others.length = document.partitions.length →
          Record.Tiles data offset others .empty → others = payloads) ∧
        ∃ report, (scanRecords sink data document offset state).result = .ok report ∧
          report.shape = document.shape ∧ report.totalBytes = data.size ∧
          report.outcomes.length = document.partitions.length ∧
          ∀ i (hspec : i < document.partitions.length) (hpayload : i < payloads.length)
            (houtcome : i < report.outcomes.length),
            Outcome.Classifies document.partitions[i] payloads[i] report.outcomes[i] := by
  refine ⟨⟨?_, ?_⟩, ?_⟩
  · rintro ⟨report, hok⟩
    exact exists_tiles_of_scanRecords_eq_ok hs ho hok
  · rintro ⟨payloads, hlen, htiles⟩
    exact ⟨_, scanRecords_of_tiles hs ho hlen htiles state⟩
  · intro payloads hlen htiles
    refine ⟨fun others hlen' htiles' => htiles'.eq_of_length_eq htiles (hlen'.trans hlen.symm),
      _, scanRecords_of_tiles hs ho hlen htiles state, rfl, rfl, ?_,
      fun i hspec hpayload houtcome => ?_⟩
    · rw [List.length_zipWith, hlen, Nat.min_self]
    · simp only [List.getElem_zipWith]
      exact Outcome.classifies_classify _ _

/-- A record of two bytes and an empty record, behind one other byte, are scanned against a table
that declares a wrong size for the second. -/
theorem scanRecords_ok_two_records :
    let data : ByteArray := ⟨#[9, 2, 0, 0, 0, 7, 0, 0, 0, 0, 0]⟩
    let document := ManifestDocument.bundle
      { BootParameters.unstated with partitions := [⟨"a", 2, none, none⟩, ⟨"b", 1, none, none⟩] }
    let payloads : List ByteArray := [⟨#[7, 0]⟩, ⟨#[]⟩]
    Sink.discard.NeverFails ∧ 1 ≤ data.size ∧
      payloads.length = document.partitions.length ∧ Record.Tiles data 1 payloads .empty ∧
      ∃ report, (scanRecords Sink.discard data document 1 ()).result = .ok report := by
  intro data document payloads
  have htiles : Record.Tiles data 1 payloads .empty := ⟨by decide, by decide⟩
  exact ⟨Sink.discard_neverFails, by decide, rfl, htiles,
    (scanRecords_ok_iff_tiles Sink.discard Sink.discard_neverFails data document (by decide)
      ()).1.2 ⟨payloads, rfl, htiles⟩⟩

/-! ## Scans that fail -/

/-- **The faults of records.** With a `sink` that never fails, the longest row of at most one
complete record for each entry decides how a scan ends. If entries are left, the next record is
missing or cut off at `cursor`; if none is left, either bytes are left or the scan succeeds.
Declared sizes and digests have no part in it: `document'` need only have the same names.

**Proof sketch.** By `scanRecords_result` the result is that of `structuralFault`, which knows only
the data, the names and the row. Behind a row that could be longer the reading of a record fails
(`Record.Longest.fault`), and `Record.read_eq_absent_iff` and `Record.read_eq_truncated_iff` say
what stands there. -/
theorem scanRecords_error_of_longest (sink : Sink σ) (hs : sink.NeverFails) (data : ByteArray)
    (document : ManifestDocument) {offset : Nat} (ho : offset ≤ data.size) (state : σ) :
    (∃ payloads, Record.Longest data offset document.partitions.length payloads) ∧
    (∀ payloads, Record.Longest data offset document.partitions.length payloads →
      let result := (scanRecords sink data document offset state).result
      let cursor := offset + (Record.encodeAll payloads).size
      (∀ h : payloads.length < document.partitions.length,
        (data.size < cursor + 4 →
          result = .error (.broken
            (.missingRecords payloads.length document.partitions.length))) ∧
        (cursor + 4 ≤ data.size → ∃ length available,
          data.extract cursor (cursor + 4) = Bytes.ofLength length ∧ length < 2 ^ 32 ∧
          available < length ∧ cursor + 4 + available = data.size ∧
          result = .error (.broken (.truncatedRecord document.partitions[payloads.length].name
            cursor length available)))) ∧
      (payloads.length = document.partitions.length →
        (cursor ≠ data.size → cursor < data.size ∧
          result = .error (.broken (.lengthMismatch cursor data.size))) ∧
        (cursor = data.size → ∃ report, result = .ok report))) ∧
    (∀ cursor total, (scanRecords sink data document offset state).result =
        .error (.broken (.lengthMismatch cursor total)) → cursor < total ∧ total = data.size) ∧
    ∀ {τ : Type} (other : Sink τ) (_ : other.NeverFails) (document' : ManifestDocument)
      (state' : τ), document'.partitions.map (·.name) = document.partitions.map (·.name) →
      ∀ e, (scanRecords other data document' offset state').result = .error e ↔
        (scanRecords sink data document offset state).result = .error e := by
  obtain ⟨payloads, h⟩ := Record.exists_longest data offset document.partitions.length
  obtain ⟨tail, htiles⟩ := h.tiles
  have hsize := htiles.size_eq ho
  refine ⟨⟨payloads, h⟩, fun others hothers => ?_, ?_, ?_⟩
  · obtain rfl : payloads = others := h.unique hothers
    dsimp only
    rw [scanRecords_result hs h]
    refine ⟨fun hlt => ⟨fun hshort => ?_, fun hlong => ?_⟩, fun hlen => ⟨fun hend => ?_,
      fun hend => ?_⟩⟩
    · have habsent := Record.read_eq_absent_iff.2 hshort
      rw [structuralFault_of_lt (by simpa using hlt) habsent]
      simp only [Record.Fault.toError, List.length_map]
    · obtain ⟨fault, hfault⟩ := h.fault hlt
      rw [structuralFault_of_lt (by simpa using hlt) hfault, List.getElem_map]
      cases fault with
      | absent =>
        have := Record.read_eq_absent_iff.1 hfault
        unfold Bytes.lengthSize at this
        omega
      | truncated length available =>
        obtain ⟨hleft, hcut, hshort, hword⟩ := Record.read_eq_truncated_iff.1 hfault
        exact ⟨length, available, hword, hshort, hcut, hleft, rfl⟩
    · rw [structuralFault_of_ne (by simpa using hlen) hend]
      exact ⟨by omega, rfl⟩
    · rw [structuralFault_eq_none (by simpa using hlen) hend]
      exact ⟨_, rfl⟩
  · intro cursor total herror
    rw [scanRecords_result hs h] at herror
    rcases Nat.lt_or_eq_of_le h.length_le with hlt | hlen
    · obtain ⟨fault, hfault⟩ := h.fault hlt
      rw [structuralFault_of_lt (by simpa using hlt) hfault] at herror
      cases fault <;> cases herror
    · by_cases hend : offset + (Record.encodeAll payloads).size = data.size
      · rw [structuralFault_eq_none (by simpa using hlen) hend] at herror
        cases herror
      · rw [structuralFault_of_ne (by simpa using hlen) hend] at herror
        cases herror
        exact ⟨by omega, rfl⟩
  · intro τ other hother document' state' hnames e
    have hlen : document'.partitions.length = document.partitions.length := by
      simpa using congrArg List.length hnames
    have h' : Record.Longest data offset document'.partitions.length payloads := hlen ▸ h
    rw [scanRecords_result hs h, scanRecords_result hother h', hnames]
    cases structuralFault data (document.partitions.map (·.name)) offset payloads with
    | some fault => rfl
    | none => simp

/-- A record that claims two bytes where one is left. -/
theorem scanRecords_error_cut_record :
    let data : ByteArray := ⟨#[2, 0, 0, 0, 7]⟩
    let document := ManifestDocument.bundle
      { BootParameters.unstated with partitions := [⟨"a", 9, none, none⟩] }
    Sink.discard.NeverFails ∧ 0 ≤ data.size ∧
      Record.Longest data 0 document.partitions.length [] ∧
      ∃ length available, data.extract 0 4 = Bytes.ofLength length ∧ length < 2 ^ 32 ∧
        available < length ∧ 4 + available = data.size ∧
        (scanRecords Sink.discard data document 0 ()).result =
          .error (.broken (.truncatedRecord "a" 0 length available)) := by
  intro data document
  have hlongest : Record.Longest data 0 document.partitions.length [] :=
    Record.longest_nil (by rfl : Record.read data 0 = .error (.truncated 2 1)) _
  exact ⟨Sink.discard_neverFails, Nat.zero_le _, hlongest,
    (((scanRecords_error_of_longest Sink.discard Sink.discard_neverFails data document
      (Nat.zero_le _) ()).2.1 [] hlongest).1 (by decide)).2 (by decide)⟩

end FirmwareBundle
