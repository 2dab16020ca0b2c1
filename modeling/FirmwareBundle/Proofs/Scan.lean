import FirmwareBundle.Bundle.Scan
import FirmwareBundle.Proofs.Record
import Mathlib.Data.List.Basic
/-!
# What a scan does with a row of records

A scan reads the records of a row one after the other whatever the table says about them. What it
finds for an entry depends on that entry and its own record alone.

## Main definitions

* `FirmwareBundle.Outcome.Classifies` — the outcome for an entry and its payload, as a relation.
* `FirmwareBundle.Sink.NeverFails` — a sink that takes whatever it is given.
* `FirmwareBundle.Sink.feed`, `FirmwareBundle.Sink.valid` — the payloads of a row that a sink is
  given, one after the other.
* `FirmwareBundle.ScanEvent.ofRecords` — the steps of a scan at a row of records.

## Main results

* `FirmwareBundle.Outcome.classifies_classify` — the outcome that is computed is the one of the
  relation.
* `FirmwareBundle.scanFrom_tiles` — the scan of a row of records.
-/

namespace FirmwareBundle

variable {σ : Type}

/-! ## Outcomes -/

/-- The entry `spec` asks for the `digest` that it stores, unless that is empty. -/
lemma PartitionSpec.expectedDigest_eq_some_iff {spec : PartitionSpec} {digest : String} :
    spec.expectedDigest = some digest ↔ spec.sha1 = some digest ∧ digest ≠ "" := by
  simp [expectedDigest, Option.filter_eq_some_iff]

/-- The entry `spec` asks for no digest if it stores none or an empty one. -/
lemma PartitionSpec.expectedDigest_eq_none_iff {spec : PartitionSpec} :
    spec.expectedDigest = none ↔ ∀ digest, spec.sha1 = some digest → digest = "" := by
  simp [expectedDigest, Option.filter_eq_none_iff]

namespace Outcome

/-- The outcome for the entry `spec` and its `payload`: the length is held against
`spec.payloadSize` first, then `shortDigest payload` against the stored digest unless that is
empty. -/
inductive Classifies (spec : PartitionSpec) (payload : ByteArray) : Outcome → Prop where
  | sizeMismatch (size_ne : payload.size ≠ spec.payloadSize.toNat) :
      Classifies spec payload
        (.sizeMismatch spec.name spec.payloadSize.toNat payload.size)
  | digestMismatch {digest : String} (size_eq : payload.size = spec.payloadSize.toNat)
      (stored : spec.sha1 = some digest) (ne_empty : digest ≠ "")
      (ne_digest : digest ≠ shortDigest payload) :
      Classifies spec payload (.digestMismatch spec.name digest (shortDigest payload))
  | ok (size_eq : payload.size = spec.payloadSize.toNat)
      (digest_eq : ∀ digest, spec.sha1 = some digest → digest = "" ∨ digest = shortDigest payload) :
      Classifies spec payload (.ok spec.name payload.size (shortDigest payload))

/-- `Outcome.classify spec payload` is the outcome for `spec` and `payload`.

**Proof sketch.** It compares lengths first. Then it holds the digest of the payload against
`PartitionSpec.expectedDigest`, which is the stored digest unless that is empty
(`PartitionSpec.expectedDigest_eq_some_iff`). -/
theorem classifies_classify (spec : PartitionSpec) (payload : ByteArray) :
    Classifies spec payload (classify spec payload) := by
  rw [classify]
  split
  · rename_i hsize
    exact .sizeMismatch hsize
  rename_i hsize
  rw [not_not] at hsize
  dsimp only
  split
  · rename_i hnone
    rw [PartitionSpec.expectedDigest_eq_none_iff] at hnone
    exact .ok hsize fun digest hd => .inl (hnone digest hd)
  rename_i digest hsome
  obtain ⟨hstored, hempty⟩ := PartitionSpec.expectedDigest_eq_some_iff.1 hsome
  split
  · rename_i heq
    refine .ok hsize fun other hother => .inr ?_
    rw [hstored, Option.some.injEq] at hother
    rw [← hother, heq]
  · rename_i hne
    exact .digestMismatch hsize hstored hempty hne

/-- The outcomes for the entries `specs` and a row of `payloads` are those of the pairs. -/
lemma zipWith_classify (specs : List PartitionSpec) (payloads : List ByteArray) :
    List.zipWith classify specs payloads =
      (specs.zip payloads).map fun record => classify record.1 record.2 := by
  rw [List.map_zip_eq_zipWith]
  rfl

end Outcome

/-! ## Sinks -/

namespace Sink

/-- A sink that takes whatever it is given. -/
structure NeverFails (sink : Sink σ) : Prop where
  accept : ∀ state spec payload, ∃ next, sink.accept state spec payload = .ok next
  finish : ∀ state, ∃ next, sink.finish state = .ok next

/-- The sink that drops every payload never fails. -/
lemma discard_neverFails : discard.NeverFails :=
  ⟨fun _ _ _ => ⟨(), rfl⟩, fun _ => ⟨(), rfl⟩⟩

/-- Hands the payloads of `calls` to `sink` one after the other, up to the first that it refuses. -/
def feed (sink : Sink σ) (state : σ) (calls : List (PartitionSpec × ByteArray)) :
    Except BundleError σ :=
  calls.foldlM (fun state call => sink.accept state call.1 call.2) state

/-- The entries with their payloads in `records` that are valid. -/
def valid (records : List (PartitionSpec × ByteArray)) : List (PartitionSpec × ByteArray) :=
  records.filter fun record => (Outcome.classify record.1 record.2).isOk

@[simp] lemma feed_nil (sink : Sink σ) (state : σ) : sink.feed state [] = .ok state := rfl

/-- The payload of `call` is taken before those of `calls`. -/
lemma feed_cons (sink : Sink σ) (state : σ) (call : PartitionSpec × ByteArray)
    (calls : List (PartitionSpec × ByteArray)) :
    sink.feed state (call :: calls) =
      (sink.accept state call.1 call.2).bind (sink.feed · calls) := rfl

/-- The payloads of `calls` are taken before those of `more`, and the sink is in a state `middle`
between them. -/
lemma feed_append_eq_ok_iff {sink : Sink σ} {state next : σ}
    {calls more : List (PartitionSpec × ByteArray)} :
    sink.feed state (calls ++ more) = .ok next ↔
      ∃ middle, sink.feed state calls = .ok middle ∧ sink.feed middle more = .ok next := by
  induction calls generalizing state with
  | nil => simp
  | cons call calls ih =>
    rw [List.cons_append, feed_cons, feed_cons]
    cases sink.accept state call.1 call.2 with
    | error e => simp [Except.bind]
    | ok first => exact ih

/-- A `sink` that never fails can be fed any `calls`. -/
lemma NeverFails.exists_feed {sink : Sink σ} (hs : sink.NeverFails) (state : σ)
    (calls : List (PartitionSpec × ByteArray)) : ∃ next, sink.feed state calls = .ok next := by
  induction calls generalizing state with
  | nil => exact ⟨state, rfl⟩
  | cons call calls ih =>
    obtain ⟨middle, hmiddle⟩ := hs.accept state call.1 call.2
    rw [feed_cons, hmiddle]
    exact ih middle

end Sink

/-! ## Runs -/

namespace Scan

variable {α β γ : Type}

@[simp] lemma after_nil (s : Scan σ α) : s.after [] = s := rfl

@[simp] lemma after_after (xs ys : List ScanEvent) (s : Scan σ α) :
    (s.after ys).after xs = s.after (xs ++ ys) := by
  simp [after]

@[simp] lemma map_after (f : α → β) (xs : List ScanEvent) (s : Scan σ α) :
    (s.after xs).map f = (s.map f).after xs := rfl

@[simp] lemma map_map (f : α → β) (g : β → γ) (s : Scan σ α) :
    (s.map f).map g = s.map (g ∘ f) := by
  cases s with
  | mk events sink result => cases result <;> rfl

lemma map_id' (s : Scan σ α) : s.map (fun x => x) = s := by
  cases s with
  | mk events sink result => cases result <;> rfl

@[simp] lemma result_after (xs : List ScanEvent) (s : Scan σ α) :
    (s.after xs).result = s.result := rfl

@[simp] lemma result_map (f : α → β) (s : Scan σ α) :
    (s.map f).result = s.result.map f := rfl

@[simp] lemma sink_after (xs : List ScanEvent) (s : Scan σ α) : (s.after xs).sink = s.sink := rfl

@[simp] lemma sink_map (f : α → β) (s : Scan σ α) : (s.map f).sink = s.sink := rfl

end Scan

/-- The steps of a scan at the record of `payload` that was taken for `spec` at `offset`. -/
def ScanEvent.ofRecord (offset : Nat) (spec : PartitionSpec) (payload : ByteArray) :
    List ScanEvent :=
  [.found spec.name offset payload.size,
    if (Outcome.classify spec payload).isOk then .offered spec payload
    else .rejected (Outcome.classify spec payload)]

/-- The steps of a scan at a row of `records` that were taken, the first of them at `offset`. -/
def ScanEvent.ofRecords : (offset : Nat) → List (PartitionSpec × ByteArray) → List ScanEvent
  | _, [] => []
  | offset, (spec, payload) :: records =>
    ofRecord offset spec payload ++
      ofRecords (offset + Bytes.lengthSize + payload.size) records

section Run

variable {sink : Sink σ} {data : ByteArray} {declared index offset : Nat} {state next : σ}
  {spec : PartitionSpec} {specs : List PartitionSpec} {payload tail : ByteArray}
  {payloads : List ByteArray}

/-- **One record.** A complete record at `offset` is passed, and its `payload` is handed to the sink
if it is valid. By `hfeed` the sink takes it and is in the state `next` afterwards, in which the
scan goes on. -/
theorem scanFrom_cons (hread : Record.read data offset = .ok payload)
    (hfeed : sink.feed state (Sink.valid [(spec, payload)]) = .ok next) :
    scanFrom sink data declared (spec :: specs) index offset state =
      ((scanFrom sink data declared specs (index + 1)
        (offset + Bytes.lengthSize + payload.size) next).map
          (Outcome.classify spec payload :: ·)).after (ScanEvent.ofRecord offset spec payload) := by
  rw [scanFrom, hread]
  by_cases hok : (Outcome.classify spec payload).isOk
  · have haccept : sink.accept state spec payload = .ok next := by
      simp only [Sink.valid, List.filter, hok, Sink.feed_cons] at hfeed
      cases ha : sink.accept state spec payload with
      | error e => rw [ha] at hfeed; cases hfeed
      | ok middle => rwa [ha] at hfeed
    simp only [hok, ↓reduceIte, haccept, ScanEvent.ofRecord]
  · have hstate : state = next := by
      simpa [Sink.valid, List.filter, hok] using hfeed
    simp only [hok, ScanEvent.ofRecord, hstate]
    rfl

/-- **A row of records.** The scan of a row goes on behind it with the entries that are left, after
the sink was given the valid payloads of the row, which brings it to `next`.

**Proof sketch.** Induction on `payloads`, with `scanFrom_cons` for the first of them. The offset of
the rest is that of the first record and its size, and the steps before the rest add up
(`Scan.after_after`). -/
theorem scanFrom_tiles (htiles : Record.Tiles data offset payloads tail)
    (hle : payloads.length ≤ specs.length)
    (hfeed : sink.feed state (Sink.valid (specs.zip payloads)) = .ok next) :
    scanFrom sink data declared specs index offset state =
      ((scanFrom sink data declared (specs.drop payloads.length) (index + payloads.length)
        (offset + (Record.encodeAll payloads).size) next).map
          (List.zipWith Outcome.classify specs payloads ++ ·)).after
        (ScanEvent.ofRecords offset (specs.zip payloads)) := by
  induction payloads generalizing specs index offset state with
  | nil =>
    have hstate : state = next := by simpa [Sink.valid] using hfeed
    simp [hstate, Record.encodeAll, ScanEvent.ofRecords, Scan.map_id']
  | cons payload payloads ih =>
    cases specs with
    | nil => simp at hle
    | cons spec specs =>
      obtain ⟨hread, hrest⟩ := Record.tiles_cons.1 htiles
      have hsplit : Sink.valid ((spec, payload) :: specs.zip payloads) =
          Sink.valid [(spec, payload)] ++ Sink.valid (specs.zip payloads) := by
        rw [Sink.valid, Sink.valid, Sink.valid, ← List.filter_append, List.singleton_append]
      rw [List.zip_cons_cons, hsplit, Sink.feed_append_eq_ok_iff] at hfeed
      obtain ⟨middle, hfirst, hlater⟩ := hfeed
      rw [scanFrom_cons hread hfirst, ih hrest (by simpa using hle) hlater]
      simp only [List.length_cons, List.drop_succ_cons, List.zipWith_cons_cons,
        List.zip_cons_cons, ScanEvent.ofRecords, Record.encodeAll, ByteArray.size_append,
        Record.size_encode, Scan.map_after, Scan.map_map, Scan.after_after]
      rw [show index + 1 + payloads.length = index + (payloads.length + 1) by omega,
        show offset + Bytes.lengthSize + payload.size + (Record.encodeAll payloads).size =
          offset + (Bytes.lengthSize + payload.size + (Record.encodeAll payloads).size) by omega]
      rfl

end Run

end FirmwareBundle
