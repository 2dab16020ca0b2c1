import FirmwareBundle.Proofs.PrefixFree
/-!
# Records behind another header

The records of a bundle are read from an offset on, and the bytes before it are never looked at. So
records that stand behind a header of another length are scanned as they were. Only the places that
are told differ.

## Main definitions

* `FirmwareBundle.BundleError.placeless`, `FirmwareBundle.ScanEvent.placeless`,
  `FirmwareBundle.Scan.placeless` — an error, a step and a scan without the places in them.

## Main results

* `FirmwareBundle.Record.read_append_left` — a record is read as it was behind more bytes.
* `FirmwareBundle.placeless_scanFrom` — so are all records of a scan.
* `FirmwareBundle.readManifest_append` — a header without zero bytes is read in front of any
  records.
* `FirmwareBundle.placeless_scan` — bundles with one document and the same records are scanned
  alike.
-/

namespace FirmwareBundle

/-! ## Places -/

/-- The broken dump without the offset at which it is found; of bytes that are left over only their
number is kept. -/
def BrokenDump.placeless : BrokenDump → BrokenDump
  | .truncatedRecord name _ length available => .truncatedRecord name 0 length available
  | .lengthMismatch cursor total => .lengthMismatch 0 (total - cursor)
  | reason => reason

/-- The error without the offset at which it is found. -/
def BundleError.placeless : BundleError → BundleError
  | .broken reason => .broken reason.placeless
  | e => e

/-- The step of a scan without the offset at which it is taken. -/
def ScanEvent.placeless : ScanEvent → ScanEvent
  | .found name _ length => .found name 0 length
  | event => event

namespace Scan

variable {σ α β : Type}

/-- The scan `s` without the offsets in its steps and in its error. -/
def placeless (s : Scan σ α) : Scan σ α :=
  ⟨s.events.map ScanEvent.placeless, s.sink, s.result.mapError BundleError.placeless⟩

/-- The places in the steps `events` before a scan are dropped by themselves. -/
private lemma placeless_after (events : List ScanEvent) (s : Scan σ α) :
    (s.after events).placeless = s.placeless.after (events.map ScanEvent.placeless) := by
  simp [placeless, after]

/-- A result is changed by `f` alike with and without places. -/
lemma placeless_map (f : α → β) (s : Scan σ α) : (s.map f).placeless = s.placeless.map f := by
  cases s with
  | mk events sink result => cases result <;> rfl

end Scan

/-! ## Bytes before the records -/

namespace Bytes

/-- The byte at `i` stands at `front.size + i` behind the bytes `front`. -/
private lemma byteAt_append_left (front data : ByteArray) (i : Nat) :
    byteAt (front ++ data) (front.size + i) = byteAt data i := by
  rw [byteAt, byteAt]
  by_cases hi : i < data.size
  · rw [dif_pos hi, dif_pos (by rw [ByteArray.size_append]; omega),
      ByteArray.getElem_append_right (Nat.le_add_right _ _)]
    simp only [Nat.add_sub_cancel_left]
  · rw [dif_neg hi, dif_neg (by rw [ByteArray.size_append]; omega)]

/-- The length at `offset` stands at `front.size + offset` behind the bytes `front`. -/
private lemma lengthAt_append_left (front data : ByteArray) (offset : Nat) :
    lengthAt (front ++ data) (front.size + offset) = lengthAt data offset := by
  simp only [lengthAt, Nat.add_assoc, byteAt_append_left]

end Bytes

/-- **A record is read as it was** behind the bytes `front`. Its length is the same
(`lengthAt_append_left`), as many bytes are left behind it, and its payload is the same part of
`data`. -/
theorem Record.read_append_left (front data : ByteArray) (offset : Nat) :
    read (front ++ data) (front.size + offset) = read data offset := by
  have hextract : ∀ start stop, (front ++ data).extract (front.size + start) (front.size + stop) =
      data.extract start stop := by
    intro start stop
    have hempty : front.extract (front.size + start) (front.size + stop) = .empty := by
      rw [ByteArray.extract_eq_empty_iff]
      omega
    rw [ByteArray.extract_append, hempty, ByteArray.empty_append, Nat.add_sub_cancel_left,
      Nat.add_sub_cancel_left]
  simp only [read, ByteArray.size_append, Nat.add_assoc, Bytes.lengthAt_append_left, hextract,
    Nat.add_lt_add_iff_left, Nat.add_sub_add_left]

section Run

variable {σ : Type} (sink : Sink σ) (front data : ByteArray)

/-- The end of the records is found alike behind the bytes `front`. -/
private lemma placeless_finishScan (offset : Nat) (state : σ) :
    (finishScan sink (front ++ data) (front.size + offset) state).placeless =
      (finishScan sink data offset state).placeless := by
  rw [finishScan, finishScan]
  cases sink.finish state with
  | error e => rfl
  | ok state =>
    simp only [ByteArray.size_append, Nat.add_right_inj]
    split
    · rfl
    · simp [Scan.placeless, Except.mapError, BundleError.placeless, BrokenDump.placeless,
        Nat.add_sub_add_left]

/-- **Records are scanned as they were** behind the bytes `front`.

**Proof sketch.** Induction on `specs`. By `Record.read_append_left` the record for the first entry
is the same, so it is refused alike, or the sink is given the same payload. The other records begin
as far behind `front` as before, so the induction hypothesis applies at the next offset. -/
theorem placeless_scanFrom (declared : Nat) (specs : List PartitionSpec) (index offset : Nat)
    (state : σ) :
    (scanFrom sink (front ++ data) declared specs index (front.size + offset) state).placeless =
      (scanFrom sink data declared specs index offset state).placeless := by
  induction specs generalizing index offset state with
  | nil => exact placeless_finishScan sink front data offset state
  | cons spec specs ih =>
    rw [scanFrom, scanFrom, Record.read_append_left]
    cases Record.read data offset with
    | error fault => cases fault <;> rfl
    | ok payload =>
      have hnext : front.size + offset + Bytes.lengthSize + payload.size =
          front.size + (offset + Bytes.lengthSize + payload.size) := by omega
      simp only [hnext]
      split
      · cases sink.accept state spec payload with
        | error e => rfl
        | ok next =>
          simp only [Scan.placeless_after, Scan.placeless_map, ih]
          rfl
      · simp only [Scan.placeless_after, Scan.placeless_map, ih]
        rfl

end Run

/-! ## Headers in front of records -/

section Header

variable {header records : ByteArray} {document : ManifestDocument}

/-- A `header` without zero bytes is read in front of any `records`. -/
theorem readManifest_append (hzero : ∀ i (hi : i < header.size), header[i] ≠ 0)
    (hread : ManifestDocument.ofText header = .ok document) (records : ByteArray) :
    readManifest (header ++ (⟨#[0]⟩ ++ records)) = .ok (document, header.size + 1) := by
  refine readManifest_eq_ok_iff.2 ⟨header.size, Bytes.firstZero_append hzero, ?_, rfl⟩
  rw [ByteArray.extract_append_eq_left rfl]
  exact hread

/-- The records behind `header` are those that were put there. -/
lemma extract_records (header records : ByteArray) :
    (header ++ (⟨#[0]⟩ ++ records)).extract (header.size + 1)
      (header ++ (⟨#[0]⟩ ++ records)).size = records := by
  rw [← ByteArray.append_assoc]
  have hsize : (header ++ ⟨#[0]⟩ : ByteArray).size = header.size + 1 := ByteArray.size_append
  rw [← hsize]
  exact ByteArray.extract_append_eq_right rfl ByteArray.size_append

section Scan

variable {σ : Type} {sink : Sink σ} {state : σ} {data data' : ByteArray} {offset offset' : Nat}

/-- What is found in a bundle, apart from the places, depends on its `document` and on the bytes
behind the header: it is what `scanFrom` finds in those bytes from their beginning on.

**Proof sketch.** The data are the header with its zero byte and the bytes behind it, so
`placeless_scanFrom` takes the scan back to those bytes. -/
lemma placeless_scan_eq (h : readManifest data = .ok (document, offset)) :
    ((scan sink data state).map fun report => (report.shape, report.outcomes)).placeless =
      ((scanFrom sink (data.extract offset data.size) document.partitions.length
          document.partitions 0 0 state).placeless.map (document.shape, ·)).after
        [.parsed document] := by
  obtain ⟨length, hzero, -, rfl⟩ := readManifest_eq_ok_iff.1 h
  obtain ⟨⟨hlt, -⟩, -⟩ := Bytes.firstZero_eq_some_iff.1 hzero
  have hfront : (data.extract 0 (length + 1)).size = length + 1 := by
    rw [ByteArray.size_extract]
    omega
  have hdata : data = data.extract 0 (length + 1) ++ data.extract (length + 1) data.size := by
    rw [← ByteArray.extract_eq_extract_append_extract (length + 1) (Nat.zero_le _) hlt,
      ByteArray.extract_zero_size]
  have hmoved := placeless_scanFrom sink (data.extract 0 (length + 1))
    (data.extract (length + 1) data.size) document.partitions.length document.partitions 0 0 state
  rw [← hdata, hfront, Nat.add_zero] at hmoved
  rw [scan, h]
  simp only [scanRecords, Scan.map_after, Scan.map_map, Scan.placeless_after, Scan.placeless_map,
    hmoved]
  rfl

/-- **Bundles with one document and the same records are scanned alike**, apart from the places that
are told. By `placeless_scan_eq` both sides are the scan of the records by themselves. -/
theorem placeless_scan (h : readManifest data = .ok (document, offset))
    (h' : readManifest data' = .ok (document, offset'))
    (hrecords : data'.extract offset' data'.size = data.extract offset data.size) :
    ((scan sink data' state).map fun report => (report.shape, report.outcomes)).placeless =
      ((scan sink data state).map fun report => (report.shape, report.outcomes)).placeless := by
  rw [placeless_scan_eq h, placeless_scan_eq h', hrecords]

end Scan

end Header

end FirmwareBundle
