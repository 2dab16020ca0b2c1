import FirmwareBundle.Proofs.BundleRoundTrip
import FirmwareBundle.Proofs.RecordGrammar
/-!
# Bundles cut short or written on

A bundle that is accepted says itself where it ends. Cut anywhere before that it is refused, and the
fault tells where it was cut; with anything behind it, it is refused for the bytes that are left. So
no accepted bundle is the beginning of another.

## Main results

* `FirmwareBundle.readManifest_eq_ok_iff` — where a header ends.
* `FirmwareBundle.Record.Tiles.cut` — the records in front of a cut are still there.
* `FirmwareBundle.Record.read_cut` — a record that is cut inside its payload.
* `FirmwareBundle.scan_prefix_free` — every cut and every continuation of an accepted bundle.
-/

namespace FirmwareBundle

variable {data : ByteArray}

/-! ## Cut and continued bytes -/

namespace Bytes

variable {n k : Nat}

/-- The first zero byte, at `n`, stays the first whatever is written behind it. -/
private lemma firstZero_append_right (h : firstZero data = some n) (extra : ByteArray) :
    firstZero (data ++ extra) = some n := by
  obtain ⟨⟨hn, hzero⟩, hbefore⟩ := firstZero_eq_some_iff.1 h
  refine firstZero_eq_some_iff.2 ⟨⟨by rw [ByteArray.size_append]; omega, ?_⟩, fun j hj hjn => ?_⟩
  · rw [ByteArray.getElem_append_left hn, hzero]
  · rw [ByteArray.getElem_append_left (by omega)]
    exact hbefore j (by omega) hjn

/-- The first zero byte, at `n`, stays the first if the bytes are cut at some `k` behind it. -/
private lemma firstZero_extract (h : firstZero data = some n) (hk : n < k) :
    firstZero (data.extract 0 k) = some n := by
  obtain ⟨⟨hn, hzero⟩, hbefore⟩ := firstZero_eq_some_iff.1 h
  refine firstZero_eq_some_iff.2 ⟨⟨by rw [ByteArray.size_extract]; omega, ?_⟩, fun j hj hjn => ?_⟩
  · rw [ByteArray.getElem_extract]
    simpa using hzero
  · rw [ByteArray.getElem_extract]
    simpa using hbefore j (by omega) hjn

/-- If the bytes are cut at some `k` in front of the first zero byte there is none. -/
private lemma firstZero_extract_eq_none (h : firstZero data = some n) (hk : k ≤ n) :
    firstZero (data.extract 0 k) = none := by
  obtain ⟨⟨hn, -⟩, -⟩ := firstZero_eq_some_iff.1 h
  rw [Option.eq_none_iff_forall_ne_some]
  intro m hm
  obtain ⟨⟨hmk, -⟩, -⟩ := firstZero_eq_some_iff.1 hm
  have hwhole := firstZero_append_right hm (data.extract k data.size)
  rw [← ByteArray.extract_eq_extract_append_extract k (Nat.zero_le k) (by omega),
    ByteArray.extract_zero_size, h, Option.some.injEq] at hwhole
  rw [ByteArray.size_extract] at hmk
  omega

end Bytes

/-- **A header ends at the first zero byte**, and the records start behind that: `length` bytes are
the text of the `document`, and `offset` is `length + 1`. -/
theorem readManifest_eq_ok_iff {document : ManifestDocument} {offset : Nat} :
    readManifest data = .ok (document, offset) ↔
      ∃ length, Bytes.firstZero data = some length ∧
        ManifestDocument.ofText (data.extract 0 length) = .ok document ∧ offset = length + 1 := by
  rw [readManifest]
  split
  · rename_i hnone
    simp [hnone]
  · rename_i length hlength
    simp only [hlength, Option.some.injEq, exists_eq_left']
    split
    · rename_i fault hfault
      simp [hfault]
    · rename_i document' hdocument
      simp [hdocument, eq_comm]

section Header

variable {document : ManifestDocument} {length : Nat}
  (hzero : Bytes.firstZero data = some length)
  (hdocument : ManifestDocument.ofText (data.extract 0 length) = .ok document)

include hzero hdocument

/-- A header is read as it was if the bytes are cut at some `k` behind its zero byte. -/
private lemma readManifest_extract {k : Nat} (hk : length < k) :
    readManifest (data.extract 0 k) = .ok (document, length + 1) := by
  refine readManifest_eq_ok_iff.2 ⟨length, Bytes.firstZero_extract hzero hk, ?_, rfl⟩
  rwa [ByteArray.extract_extract, Nat.zero_add, Nat.zero_add, Nat.min_eq_left (Nat.le_of_lt hk)]

/-- A header is read as it was whatever `extra` bytes are written behind it. -/
lemma readManifest_append_right (extra : ByteArray) :
    readManifest (data ++ extra) = .ok (document, length + 1) := by
  obtain ⟨⟨hlt, -⟩, -⟩ := Bytes.firstZero_eq_some_iff.1 hzero
  refine readManifest_eq_ok_iff.2 ⟨length, Bytes.firstZero_append_right hzero extra, ?_, rfl⟩
  rwa [ByteArray.extract_append, Nat.sub_eq_zero_of_le (Nat.le_of_lt hlt), Nat.zero_sub,
    ByteArray.extract_same, ByteArray.append_empty]

end Header

/-! ## Cut rows -/

namespace Record

variable {tail : ByteArray} {offset k : Nat} {payload : ByteArray} {payloads : List ByteArray}

/-- The bytes of a row are those of the records of `payloads`. -/
lemma Tiles.extract_eq (h : Tiles data offset payloads tail) (ho : offset ≤ data.size) :
    data.extract offset (offset + (encodeAll payloads).size) = encodeAll payloads := by
  have hsize := h.size_eq ho
  have hbytes := h.bytes
  rw [ByteArray.extract_eq_extract_append_extract (offset + (encodeAll payloads).size)
    (Nat.le_add_right _ _) (by omega)] at hbytes
  exact ((ByteArray.append_eq_append_iff_of_size_eq_left
    (by rw [ByteArray.size_extract]; omega)).1 hbytes).1

/-- The records in front of a cut at `k` are still there, and what is left of the data behind them
ends at `k`. -/
theorem Tiles.cut (h : Tiles data offset payloads tail)
    (hk : offset + (encodeAll payloads).size ≤ k) (hle : k ≤ data.size) :
    Tiles (data.extract 0 k) offset payloads
      (data.extract (offset + (encodeAll payloads).size) k) := by
  refine ⟨h.short, ?_⟩
  have hsize : (data.extract 0 k).size = k := by
    rw [ByteArray.size_extract]
    omega
  rw [ByteArray.extract_extract, hsize, Nat.zero_add, Nat.zero_add, Nat.min_self,
    ByteArray.extract_eq_extract_append_extract (offset + (encodeAll payloads).size)
      (Nat.le_add_right _ _) hk, h.extract_eq (by omega)]

/-- A row stays where it is whatever `extra` bytes are written behind the data. -/
lemma Tiles.append_right (h : Tiles data offset payloads tail) (ho : offset ≤ data.size)
    (extra : ByteArray) : Tiles (data ++ extra) offset payloads (tail ++ extra) := by
  obtain ⟨before, rfl, rfl⟩ := h.exists_eq_append ho
  rw [ByteArray.append_assoc, ByteArray.append_assoc]
  exact tiles_append_left before h.short

/-- A record that is cut at `k` inside its payload is truncated: its length is still that of
`payload`, but only the bytes between the length and `k` are there. -/
theorem read_cut (h : read data offset = .ok payload) (hk : offset + Bytes.lengthSize ≤ k)
    (hlt : k < offset + Bytes.lengthSize + payload.size) :
    read (data.extract 0 k) offset =
      .error (.truncated payload.size (k - (offset + Bytes.lengthSize))) := by
  obtain ⟨hshort, hle, hbytes⟩ := read_eq_ok_iff.1 h
  have hsize : (data.extract 0 k).size = k := by
    rw [ByteArray.size_extract]
    omega
  rw [encode, ByteArray.extract_eq_extract_append_extract (offset + Bytes.lengthSize)
    (Nat.le_add_right _ _) (Nat.le_add_right _ _)] at hbytes
  have hword := ((ByteArray.append_eq_append_iff_of_size_eq_left
    (by rw [ByteArray.size_extract, Bytes.size_ofLength]; omega)).1 hbytes).1
  refine read_eq_truncated_iff.2 ⟨by omega, by omega, hshort, ?_⟩
  rw [ByteArray.extract_extract, Nat.zero_add, Nat.zero_add, Nat.min_eq_left hk, hword]

/-- Where no record can be read behind a row, the row is the longest.

**Proof sketch.** A longer row begins with this one (`Record.Tiles.eq_take`), so its next record
would be where none can be read. -/
private lemma Tiles.longest_of_fault {limit : Nat} {fault : Fault}
    (h : Tiles data offset payloads tail) (hle : payloads.length ≤ limit)
    (hread : read data (offset + (encodeAll payloads).size) = .error fault) :
    Longest data offset limit payloads := by
  refine ⟨⟨tail, h⟩, hle, fun others rest hothers _ => ?_⟩
  by_contra hlonger
  obtain ⟨next, back, hback⟩ := List.exists_cons_of_length_pos
    (by rw [List.length_drop]; omega : 0 < (others.drop payloads.length).length)
  have hsplit : payloads ++ next :: back = others := by
    conv_lhs => rw [h.eq_take hothers (by omega), ← hback]
    exact List.take_append_drop _ _
  rw [← hsplit] at hothers
  have hnext := (tiles_cons.1 (tiles_append.1 hothers).2).1
  rw [hnext] at hread
  cases hread

/-- Every byte `k` of a row belongs to one of its records.

**Proof sketch.** Induction on `payloads`. Either `k` lies in the first record, or it lies in one of
the others, which start behind the first. -/
private lemma exists_record_at (h : offset ≤ k) (hlt : k < offset + (encodeAll payloads).size) :
    ∃ i, ∃ hi : i < payloads.length, offset + (encodeAll (payloads.take i)).size ≤ k ∧
      k < offset + (encodeAll (payloads.take i)).size + Bytes.lengthSize + payloads[i].size := by
  induction payloads generalizing offset with
  | nil =>
    rw [encodeAll, ByteArray.size_empty] at hlt
    omega
  | cons payload payloads ih =>
    rw [encodeAll, ByteArray.size_append, size_encode] at hlt
    by_cases hfirst : k < offset + Bytes.lengthSize + payload.size
    · exact ⟨0, Nat.zero_lt_succ _, by simpa [encodeAll] using h, by simpa [encodeAll] using hfirst⟩
    · obtain ⟨i, hi, hfrom, hto⟩ := ih (by omega : offset + Bytes.lengthSize + payload.size ≤ k)
        (by omega)
      refine ⟨i + 1, Nat.succ_lt_succ hi, ?_, ?_⟩ <;>
        rw [List.take_succ_cons, encodeAll, ByteArray.size_append, size_encode]
      · omega
      · rw [List.getElem_cons_succ]
        omega

/-- The record of `payloads[i]` stands in the row behind those of the payloads before it. -/
private lemma Tiles.read_getElem (h : Tiles data offset payloads tail) {i : Nat}
    (hi : i < payloads.length) :
    (∃ rest, Tiles data offset (payloads.take i) rest) ∧
      read data (offset + (encodeAll (payloads.take i)).size) = .ok payloads[i] := by
  rw [← List.take_append_drop i payloads, List.drop_eq_getElem_cons hi] at h
  obtain ⟨hfront, hnext⟩ := tiles_append.1 h
  exact ⟨hfront, (tiles_cons.1 hnext).1⟩

end Record

/-! ## Cut and continued bundles -/

section Scans

variable {σ : Type} {sink : Sink σ} {document : ManifestDocument} {offset k : Nat}
  {payload tail : ByteArray} {payloads : List ByteArray}

/-- Behind its header, at `offset`, a bundle is scanned record by record. -/
lemma result_scan (h : readManifest data = .ok (document, offset)) (state : σ) :
    (scan sink data state).result = (scanRecords sink data document offset state).result := by
  rw [scan, h]
  rfl

/-- A row of records that is too short for the table and behind which no record can be read is
refused for the next one, with the `fault` of the reading. Such a row is the longest
(`Record.Tiles.longest_of_fault`). -/
private lemma scanRecords_of_fault (hs : sink.NeverFails) {fault : Record.Fault}
    (htiles : Record.Tiles data offset payloads tail)
    (hlt : payloads.length < document.partitions.length)
    (hread : Record.read data (offset + (Record.encodeAll payloads).size) = .error fault)
    (state : σ) :
    (scanRecords sink data document offset state).result =
      .error (fault.toError document.partitions[payloads.length].name payloads.length
        document.partitions.length (offset + (Record.encodeAll payloads).size)) := by
  rw [scanRecords_result hs (htiles.longest_of_fault (Nat.le_of_lt hlt) hread),
    structuralFault_of_lt (by simpa using hlt) hread]
  simp only [List.getElem_map, List.length_map]

/-- A bundle that is accepted is a header of `length` bytes, a zero byte and a record for each entry
of its `document`, with nothing behind them.

**Proof sketch.** The header is read (`readManifest_eq_ok_iff`), and the scan of the records behind
it succeeds, which needs such a row (`exists_tiles_of_scanRecords_eq_ok`). -/
private lemma exists_tiles_of_scan_eq_ok (hs : sink.NeverFails) {state : σ} {report : ScanReport}
    (hok : (scan sink data state).result = .ok report) :
    ∃ length document payloads, Bytes.firstZero data = some length ∧
      ManifestDocument.ofText (data.extract 0 length) = .ok document ∧
      payloads.length = document.partitions.length ∧
      Record.Tiles data (length + 1) payloads .empty := by
  cases hread : readManifest data with
  | error e =>
    rw [scan, hread] at hok
    cases hok
  | ok header =>
    obtain ⟨document, offset⟩ := header
    obtain ⟨length, hzero, hdocument, rfl⟩ := readManifest_eq_ok_iff.1 hread
    rw [result_scan hread] at hok
    obtain ⟨⟨hlt, -⟩, -⟩ := Bytes.firstZero_eq_some_iff.1 hzero
    obtain ⟨payloads, hlen, htiles⟩ := exists_tiles_of_scanRecords_eq_ok hs hlt hok
    exact ⟨length, document, payloads, hzero, hdocument, hlen, htiles⟩

/-- **Accepted bundles are prefix-free.** An accepted bundle is a header of `length` bytes, a zero
byte, and a row of records. Cut at some `k` in front of the zero byte or at it, the header has no
end; cut behind it, the cut falls into one of the records, which is missing if less than its length
is left, and truncated otherwise. With any `extra` bytes behind it the bundle is refused for them.
So nothing but the empty continuation of an accepted bundle is accepted.

**Proof sketch.** The header of a cut bundle is read as before (`readManifest_extract`), the records
in front of the cut are still there (`Record.Tiles.cut`), and behind them no record can be read
(`Record.read_cut`), so they are the longest row (`Record.Tiles.longest_of_fault`). -/
theorem scan_prefix_free (hs : sink.NeverFails) {state : σ} {report : ScanReport}
    (hok : (scan sink data state).result = .ok report) :
    ∃ length document payloads, Bytes.firstZero data = some length ∧
      ManifestDocument.ofText (data.extract 0 length) = .ok document ∧
      payloads.length = document.partitions.length ∧
      Record.Tiles data (length + 1) payloads .empty ∧
      (∀ k ≤ length, (scan sink (data.extract 0 k) state).result =
        .error (.broken .missingTerminator)) ∧
      (∀ k, length < k → k < data.size → ∃ i, ∃ h : i < payloads.length,
        length + 1 + (Record.encodeAll (payloads.take i)).size ≤ k ∧
          k < length + 1 + (Record.encodeAll (payloads.take i)).size + 4 + payloads[i].size) ∧
      (∀ i (hspec : i < document.partitions.length) (hpayload : i < payloads.length) (k : Nat),
        let start := length + 1 + (Record.encodeAll (payloads.take i)).size
        let result := (scan sink (data.extract 0 k) state).result
        (start ≤ k → k < start + 4 →
          result = .error (.broken (.missingRecords i document.partitions.length))) ∧
        (start + 4 ≤ k → k < start + 4 + payloads[i].size →
          result = .error (.broken (.truncatedRecord document.partitions[i].name start
            payloads[i].size (k - (start + 4)))))) ∧
      (∀ extra, extra ≠ .empty → (scan sink (data ++ extra) state).result =
        .error (.broken (.lengthMismatch data.size (data.size + extra.size)))) ∧
      ∀ extra report', (scan sink (data ++ extra) state).result = .ok report' → extra = .empty := by
  obtain ⟨length, document, payloads, hzero, hdocument, hlen, htiles⟩ :=
    exists_tiles_of_scan_eq_ok hs hok
  obtain ⟨⟨hlt, -⟩, -⟩ := Bytes.firstZero_eq_some_iff.1 hzero
  have hsize := htiles.size_eq hlt
  rw [ByteArray.size_empty, Nat.add_zero] at hsize
  have hextra : ∀ extra, extra ≠ .empty → (scan sink (data ++ extra) state).result =
      .error (.broken (.lengthMismatch data.size (data.size + extra.size))) := by
    intro extra hne
    have hpos : extra.size ≠ 0 := fun h => hne (ByteArray.size_eq_zero_iff.1 h)
    have hrow := htiles.append_right hlt extra
    rw [result_scan (readManifest_append_right hzero hdocument extra),
      scanRecords_result hs (hrow.longest hlen), structuralFault_of_ne (by simpa using hlen)
      (by rw [ByteArray.size_append]; omega), hsize, ByteArray.size_append]
  refine ⟨length, document, payloads, hzero, hdocument, hlen, htiles, fun k hk => ?_,
    fun k hk hkend => Record.exists_record_at hk (by omega), fun i hspec hpayload k => ?_, hextra,
    fun extra report' hok' => ?_⟩
  · rw [scan, readManifest, Bytes.firstZero_extract_eq_none hzero hk]
  · intro start result
    obtain ⟨⟨rest, hfront⟩, hread⟩ := htiles.read_getElem hpayload
    obtain ⟨-, hend, -⟩ := Record.read_eq_ok_iff.1 hread
    have hcount : (payloads.take i).length = i := List.length_take_of_le (Nat.le_of_lt hpayload)
    have hcut : ∀ fault, start ≤ k → k < start + 4 + payloads[i].size →
        Record.read (data.extract 0 k) start = .error fault →
        result = .error (fault.toError document.partitions[i].name i document.partitions.length
          start) := by
      intro fault hfrom hto hfault
      have hheader := readManifest_extract hzero hdocument (by omega : length < k)
      have hrow := hfront.cut hfrom (by unfold Bytes.lengthSize at hend; omega)
      have hscan := scanRecords_of_fault hs hrow
        (by omega : (payloads.take i).length < document.partitions.length) hfault state
      simp only [hcount] at hscan
      exact (result_scan hheader state).trans hscan
    refine ⟨fun hfrom hto => ?_, fun hfrom hto => ?_⟩
    · refine hcut .absent hfrom (by omega) (Record.read_eq_absent_iff.2 ?_)
      rw [ByteArray.size_extract]
      unfold Bytes.lengthSize
      omega
    · exact hcut _ (by omega) hto (Record.read_cut hread hfrom hto)
  · by_contra hne
    rw [hextra extra hne] at hok'
    cases hok'

/-- A bundle of a payload of two bytes and an empty one. -/
def Bundle.twoPayloads : Bundle where
  manifest := { BootParameters.unstated with
    partitions := [⟨"a", 2, none, none⟩, ⟨"b", 1, none, none⟩] }
  payloads := [⟨#[7, 0]⟩, .empty]

/-- Without its last byte `Bundle.twoPayloads` lacks a record, without the last five it has one that
is truncated, and with another zero byte it is too long. -/
theorem scan_prefix_free_twoPayloads :
    let data := Bundle.twoPayloads.toBytes
    Sink.discard.NeverFails ∧
      (∃ report, (scan Sink.discard data ()).result = .ok report) ∧
      (scan Sink.discard (data.extract 0 0) ()).result = .error (.broken .missingTerminator) ∧
      (scan Sink.discard (data.extract 0 (data.size - 1)) ()).result =
        .error (.broken (.missingRecords 1 2)) ∧
      (scan Sink.discard (data.extract 0 (data.size - 5)) ()).result =
        .error (.broken (.truncatedRecord "a" (data.size - 10) 2 1)) ∧
      (scan Sink.discard (data ++ ⟨#[0]⟩) ()).result =
        .error (.broken (.lengthMismatch data.size (data.size + 1))) := by
  have hsafe : Bundle.twoPayloads.manifest.Safe := by decide
  have hpartitions : Bundle.twoPayloads.manifest.partitions =
    [⟨"a", 2, none, none⟩, ⟨"b", 1, none, none⟩] := rfl
  have hpayloads : Bundle.twoPayloads.payloads = [⟨#[7, 0]⟩, .empty] := rfl
  generalize Bundle.twoPayloads = bundle at *
  intro data
  have hrow := tiles_toBytes (by rw [hpayloads]; decide :
    ∀ payload ∈ bundle.payloads, payload.size < 2 ^ 32)
  have hheader := readManifest_toBytes hsafe (by rw [hpartitions]; decide)
  obtain ⟨length, hzero, hdocument, hlength⟩ := readManifest_eq_ok_iff.1 hheader
  rw [hlength] at hrow hheader
  rw [hpayloads] at hrow
  obtain ⟨⟨hlt, -⟩, -⟩ := Bytes.firstZero_eq_some_iff.1 hzero
  have hsize : length + 1 + 10 = data.size := hrow.size_eq hlt
  have hfirst : length + 1 = data.size - 10 := by omega
  have hok := (result_scan hheader ()).trans (scanRecords_of_tiles Sink.discard_neverFails hlt
    (congrArg List.length hpartitions).symm hrow ())
  -- The parts of the bundle that the theorem speaks of are the ones that were written.
  obtain ⟨length', document, payloads, hzero', hdocument', hlen, hrow', hshort, -, hcut, hlong,
    -⟩ :=
    scan_prefix_free Sink.discard_neverFails hok
  obtain rfl := Option.some.inj (hzero.symm.trans hzero')
  obtain rfl := Except.ok.inj (hdocument.symm.trans hdocument')
  obtain rfl := hrow'.eq_of_length_eq hrow (hlen.trans (congrArg List.length hpartitions))
  simp only [ManifestDocument.partitions, hpartitions] at hcut
  have hmissing : (scan Sink.discard (data.extract 0 (data.size - 1)) ()).result =
      .error (.broken (.missingRecords 1 2)) :=
    (hcut 1 (by decide) (by decide) (data.size - 1)).1
      (by change length + 1 + 6 ≤ _; omega) (by change _ < length + 1 + 6 + 4; omega)
  have htruncated : (scan Sink.discard (data.extract 0 (data.size - 5)) ()).result =
      .error (.broken (.truncatedRecord "a" (length + 1) 2 (data.size - 5 - (length + 1 + 4)))) :=
    (hcut 0 (by decide) (by decide) (data.size - 5)).2
      (by change length + 1 + 4 ≤ _; omega) (by change _ < length + 1 + 4 + 2; omega)
  rw [hfirst, (by omega : data.size - 5 - (data.size - 10 + 4) = 1)] at htruncated
  exact ⟨Sink.discard_neverFails, ⟨_, hok⟩, hshort 0 (Nat.zero_le _), hmissing, htruncated,
    hlong ⟨#[0]⟩ (by decide)⟩

end Scans

end FirmwareBundle
