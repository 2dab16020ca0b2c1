import FirmwareBundle.Bundle.Destination
import FirmwareBundle.Proofs.Delivery
import FirmwareBundle.Proofs.Files
/-!
# Payloads put together in one file

A scan can write all valid payloads to one file. The file is made only once there is a header; from
then on it holds the valid payloads so far, one behind the other, and nothing of what it held
before. So it is known what it holds at the end, whatever ends the scan.

Bytes on their way to a file may wait in a buffer. The file and the buffer together hold what the
file alone would hold without one, so nothing is lost or written twice as long as the buffer is
emptied at the end.

## Main definitions

* `FirmwareBundle.Buffered` — a file with a buffer before it.
* `FirmwareBundle.Buffered.Holds` — the bytes that the file and the buffer hold together.
* `FirmwareBundle.Sink.buffered` — the sink that writes all payloads to one file through a buffer.

## Main results

* `FirmwareBundle.Aggregate.feed_eq` — the file after some payloads.
* `FirmwareBundle.Buffered.Holds.write` — what a file and its buffer hold after a payload.
* `FirmwareBundle.scanInto_concatenate` — the files after a scan that writes to one file.
-/

namespace FirmwareBundle

variable {files : FileSystem} {path : String} {place : Location} {bytes : ByteArray}
  {records : List (PartitionSpec × ByteArray)}

/-! ## One file -/

/-- The payloads of `records`, one behind the other. -/
def payloadBytes (records : List (PartitionSpec × ByteArray)) : ByteArray :=
  Bytes.joined (records.map (·.2))

/-- **Payloads are written** behind the `bytes` that are in the file at `place`, and `count` counts
them.

**Proof sketch.** Induction on `records`. The first payload is appended to the file, which is put
again with more bytes in it, and the others go on from there. -/
theorem Aggregate.feed_eq (hplace : place ≠ []) (files : FileSystem) (bytes : ByteArray)
    (count : Nat) (records : List (PartitionSpec × ByteArray)) :
    Sink.concatenate.feed ⟨files.put place bytes, place, count⟩ records =
      .ok ⟨files.put place (bytes ++ payloadBytes records), place,
        count + (payloadBytes records).size⟩ := by
  induction records generalizing bytes count with
  | nil => simp [payloadBytes, Bytes.joined]
  | cons record records ih =>
    have haccept : Sink.concatenate.accept ⟨files.put place bytes, place, count⟩ record.1 record.2 =
        .ok ⟨files.put place (bytes ++ record.2), place, count + record.2.size⟩ := by
      rw [← FileSystem.append_put hplace]
      rfl
    have hbytes : payloadBytes (record :: records) = record.2 ++ payloadBytes records :=
      Bytes.joined_cons record.2 _
    rw [Sink.feed_cons, haccept, hbytes, ByteArray.size_append, ← ByteArray.append_assoc,
      ← Nat.add_assoc]
    exact ih (bytes ++ record.2) (count + record.2.size)

/-! ## A buffer -/

/-- A file with a buffer before it, in which at most `capacity` bytes wait to be written. -/
structure Buffered (capacity : Nat) where
  files : FileSystem
  place : Location
  pending : ByteArray
  pending_le : pending.size ≤ capacity

namespace Buffered

variable {capacity : Nat}

/-- The file at `place` with an empty buffer. -/
def start (capacity : Nat) (files : FileSystem) (place : Location) : Buffered capacity :=
  ⟨files, place, .empty, Nat.zero_le _⟩

/-- Empties the buffer into the file. -/
def flush (s : Buffered capacity) : Buffered capacity :=
  start capacity (s.files.append s.place s.pending) s.place

/-- Empties the buffer if it has no room for `size` bytes. -/
def reserve (s : Buffered capacity) (size : Nat) : Buffered capacity :=
  if capacity < s.pending.size + size then s.flush else s

/-- There is room for `size` bytes if the buffer can hold more than that. -/
private lemma reserve_le (s : Buffered capacity) {size : Nat} (h : size < capacity) :
    (s.reserve size).pending.size + size ≤ capacity := by
  rw [reserve]
  split
  · show 0 + size ≤ capacity
    omega
  · omega

/-- No bytes wait where the buffer was made ready for as many as it can hold: it was emptied, or
there were none and it can hold none. -/
private lemma pending_reserve_eq_empty (s : Buffered capacity) {size : Nat} (h : capacity ≤ size) :
    (s.reserve size).pending = .empty := by
  rw [reserve]
  split
  · rfl
  · exact ByteArray.size_eq_zero_iff.1 (by omega)

/-- Writes `data` behind the other bytes. They wait in the buffer unless there are as many as it can
hold. -/
def write (s : Buffered capacity) (data : ByteArray) : Buffered capacity :=
  let ready := s.reserve data.size
  if h : data.size < capacity then
    ⟨ready.files, ready.place, ready.pending ++ data, by
      rw [ByteArray.size_append]
      exact s.reserve_le h⟩
  else { ready with files := ready.files.append ready.place data }

/-- The file at `place` and the buffer together hold `bytes`, and the other files are those of
`files`. -/
structure Holds (s : Buffered capacity) (files : FileSystem) (place : Location)
    (bytes : ByteArray) : Prop where
  place_eq : s.place = place
  exists_written : ∃ written, s.files = files.put place written ∧ written ++ s.pending = bytes

/-- An empty file with an empty buffer holds nothing. -/
lemma holds_start (files : FileSystem) (place : Location) :
    (start capacity (files.put place .empty) place).Holds files place .empty :=
  ⟨rfl, .empty, rfl, ByteArray.append_empty⟩

namespace Holds

variable {s : Buffered capacity} (hplace : place ≠ []) (h : s.Holds files place bytes)

include hplace h

/-- Once the buffer is emptied, all of `bytes` are in the file. -/
private lemma files_flush : s.flush.files = files.put place bytes := by
  obtain ⟨rfl, written, hfiles, rfl⟩ := h
  show s.files.append s.place s.pending = _
  rw [hfiles, FileSystem.append_put hplace]

/-- Nothing is lost when the buffer is emptied. -/
private lemma flush : s.flush.Holds files place bytes :=
  ⟨h.place_eq, bytes, h.files_flush hplace, ByteArray.append_empty⟩

/-- Nothing is lost when the buffer is made ready. -/
private lemma reserve (size : Nat) : (s.reserve size).Holds files place bytes := by
  rw [Buffered.reserve]
  split
  · exact h.flush hplace
  · exact h

/-- **Bytes that are written** are held behind the others, whether they wait or not.

**Proof sketch.** Making the buffer ready loses nothing. If `data` waits, it is behind the bytes
that wait already. If it does not, nothing else waits (`Buffered.pending_reserve_eq_empty`), so
`data` is written to the file right behind the others. -/
theorem write (data : ByteArray) : (s.write data).Holds files place (bytes ++ data) := by
  obtain ⟨hready, written, hfiles, hbytes⟩ := h.reserve hplace data.size
  rw [Buffered.write]
  by_cases hlt : data.size < capacity
  · simp only [hlt, ↓reduceDIte]
    refine ⟨hready, written, hfiles, ?_⟩
    rw [← hbytes, ByteArray.append_assoc]
  · have hempty := s.pending_reserve_eq_empty (Nat.le_of_not_lt hlt)
    rw [hempty, ByteArray.append_empty] at hbytes
    simp only [hlt, ↓reduceDIte]
    refine ⟨hready, written ++ data, ?_, ?_⟩
    · show (s.reserve data.size).files.append (s.reserve data.size).place data = _
      rw [hfiles, hready, FileSystem.append_put hplace]
    · show written ++ data ++ (s.reserve data.size).pending = _
      rw [hempty, ByteArray.append_empty, hbytes]

end Holds

end Buffered

/-- The sink that writes all payloads to one file through a buffer of size `capacity`. -/
def Sink.buffered (capacity : Nat) : Sink (Buffered capacity) where
  accept := fun s _ payload => .ok (s.write payload)
  finish := fun s => .ok s.flush

/-- The sink that writes through a buffer never fails. -/
private lemma Sink.buffered_neverFails (capacity : Nat) : (buffered capacity).NeverFails :=
  ⟨fun _ _ _ => ⟨_, rfl⟩, fun _ => ⟨_, rfl⟩⟩

/-- **Payloads are held** behind the `bytes` that the file and the buffer hold:
`Buffered.Holds.write` for one payload after the other. -/
theorem Buffered.Holds.feed {capacity : Nat} {s last : Buffered capacity} (hplace : place ≠ [])
    (h : s.Holds files place bytes) (hfeed : (Sink.buffered capacity).feed s records = .ok last) :
    last.Holds files place (bytes ++ payloadBytes records) := by
  induction records generalizing s bytes with
  | nil =>
    obtain rfl := Except.ok.inj hfeed
    rw [show payloadBytes [] = .empty from rfl, ByteArray.append_empty]
    exact h
  | cons record records ih =>
    have hbytes : payloadBytes (record :: records) = record.2 ++ payloadBytes records :=
      Bytes.joined_cons record.2 _
    rw [hbytes, ← ByteArray.append_assoc]
    exact ih (h.write hplace record.2) hfeed

/-! ## Scans that write to one file -/

section ScanInto

variable {data : ByteArray} {document : ManifestDocument} {offset : Nat}
  {payloads : List ByteArray}
  (h : Record.Longest data offset document.partitions.length payloads)

include h

/-- The records behind a header, put together in the file at `place`, which `path` names. -/
lemma scanInto_concatenate_eq (hmanifest : readManifest data = .ok (document, offset))
    (hnames : files.Names path place) :
    (scanInto files data (.concatenate path)).sink =
        files.put place (payloadBytes (Sink.valid (document.partitions.zip payloads))) ∧
      (scanInto files data (.concatenate path)).result =
        recordsResult data document offset payloads := by
  have hcreate : Aggregate.create files path = .ok ⟨files.put place .empty, place, 0⟩ := by
    rw [Aggregate.create, FileSystem.create_eq_ok_iff.2 ⟨hnames, rfl⟩]
  have hfeed := Aggregate.feed_eq hnames.ne_nil files .empty 0
    (Sink.valid (document.partitions.zip payloads))
  obtain ⟨hsink, hresult⟩ := scanRecords_of_feed h hfeed rfl
  rw [ByteArray.empty_append, or_self] at hsink
  simp only [scanInto, hmanifest, hcreate, Scan.sink_after, Scan.result_after, Scan.mapSink,
    hsink, hresult, and_self]

/-- The records behind a header, put together in the file at `place` through a buffer.

**Proof sketch.** The sink never fails, so all valid payloads are held (`Buffered.Holds.feed`). The
scan may end before the sink is told that there are no more; then the buffer is still to be emptied.
If it was told, the buffer is empty, and to empty it once more changes nothing. -/
private lemma scanRecords_buffered (hplace : place ≠ []) (capacity : Nat) :
    let run := scanRecords (Sink.buffered capacity) data document offset
      (.start capacity (files.put place .empty) place)
    run.sink.flush.files =
        files.put place (payloadBytes (Sink.valid (document.partitions.zip payloads))) ∧
      run.result = recordsResult data document offset payloads := by
  intro run
  obtain ⟨fed, hfeed⟩ := (Sink.buffered_neverFails capacity).exists_feed
    (.start capacity (files.put place .empty) place)
    (Sink.valid (document.partitions.zip payloads))
  obtain ⟨hsink, hresult⟩ := scanRecords_of_feed h hfeed rfl
  have hholds := (Buffered.holds_start files place).feed hplace hfeed
  rw [ByteArray.empty_append] at hholds
  refine ⟨?_, hresult⟩
  rcases hsink with hsink | hsink
  · rw [show run.sink = fed from hsink]
    exact hholds.files_flush hplace
  · -- A buffer that was emptied behind the last record is emptied once more.
    rw [show run.sink = fed.flush from hsink]
    exact (hholds.flush hplace).files_flush hplace

end ScanInto

/-- **What a scan puts together.** Nothing is done without a header, or if the file that `path`
names cannot be made. Otherwise the records alone decide the result, and whatever it is, the file
holds the valid payloads of the complete records in the order of the table, and nothing of what it
held before. There is no other place at which anything has changed.

The same holds if the payloads go through a buffer of any `capacity` that is emptied at the end.

**Proof sketch.** The longest row behind the header gives the payloads (`scanInto_concatenate_eq`,
and `scanRecords_buffered` for the buffer). The sink takes all of them (`Aggregate.feed_eq`), so it
has no part in the result. -/
theorem scanInto_concatenate (files : FileSystem) (path : String) (data : ByteArray) :
    let run := scanInto files data (.concatenate path)
    (∀ e, readManifest data = .error e → run.sink = files ∧ run.result = .error e) ∧
    ∀ document offset, readManifest data = .ok (document, offset) →
      (∀ cause, files.create path = .error cause →
        run.sink = files ∧ run.result = .error (.write path cause)) ∧
      ∀ place made, files.create path = .ok (place, made) →
        ∃ payloads, Record.Longest data offset document.partitions.length payloads ∧
          let bytes := payloadBytes (Sink.valid (document.partitions.zip payloads))
          run.sink.tree.get? place = some (.file bytes) ∧ run.sink.read path = .ok bytes ∧
          files.SameExcept run.sink [place] ∧
          run.result = recordsResult data document offset payloads ∧
          ∀ capacity,
            let buffered := scanRecords (Sink.buffered capacity) data document offset
              (.start capacity made place)
            buffered.sink.flush.files = run.sink ∧ buffered.result = run.result := by
  intro run
  refine ⟨fun e hmanifest => ?_, fun document offset hmanifest => ⟨fun cause hcreate => ?_,
    fun place made hcreate => ?_⟩⟩
  · simp only [run, scanInto, hmanifest, and_self]
  · simp only [run, scanInto, hmanifest, Aggregate.create, hcreate, and_self]
  obtain ⟨hnames, rfl⟩ := FileSystem.create_eq_ok_iff.1 hcreate
  obtain ⟨payloads, hlongest⟩ := Record.exists_longest data offset document.partitions.length
  obtain ⟨hsink, hresult⟩ := scanInto_concatenate_eq hlongest hmanifest hnames
  refine ⟨payloads, hlongest, ?_⟩
  rw [show run.sink = _ from hsink, show run.result = _ from hresult]
  refine ⟨?_, hnames.read_put _, FileSystem.sameExcept_put hnames.ne_nil _, rfl, fun capacity =>
    scanRecords_buffered hlongest hnames.ne_nil capacity⟩
  rw [FileSystem.get?_tree_put hnames.ne_nil, if_pos rfl]

end FirmwareBundle
