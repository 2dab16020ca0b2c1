import FirmwareBundle.Proofs.RecordGrammar
/-!
# What a scan asks of its sink

A scan hands the valid payloads of the complete records to its sink, in the order of the table, and
tells it once that there are no more if there was a record for each entry. It stops at the first
call that the sink refuses, and then the refusal is its result, whatever else is wrong with the
records that follow.

## Main definitions

* `FirmwareBundle.SinkCall` — the calls of a sink.
* `FirmwareBundle.Sink.respondAll` — calls that are made one after the other.
* `FirmwareBundle.Scan.calls` — the calls that a scan makes.
* `FirmwareBundle.dueCalls` — the calls that are due for a table and a row of payloads.

## Main results

* `FirmwareBundle.scanFrom_refused` — the scan of a row up to a payload that is refused.
* `FirmwareBundle.scanRecords_calls` — the calls of a scan, with any sink.
-/

namespace FirmwareBundle

variable {σ α β : Type}

/-! ## Calls -/

/-- A call of a sink: it is handed the `payload` of the entry `spec`, or told that there are no
more. -/
inductive SinkCall where
  | accept (spec : PartitionSpec) (payload : ByteArray)
  | finish

namespace SinkCall

/-- The call that hands over the payload of the entry in `record`. -/
def ofRecord (record : PartitionSpec × ByteArray) : SinkCall :=
  .accept record.1 record.2

/-- The outcome for a payload that was handed over. -/
def outcome? : SinkCall → Option Outcome
  | .accept spec payload => some (.ok spec.name payload.size (shortDigest payload))
  | .finish => none

end SinkCall

namespace Sink

/-- What `sink` makes of a call in `state`. -/
def respond (sink : Sink σ) (state : σ) : SinkCall → Except BundleError σ
  | .accept spec payload => sink.accept state spec payload
  | .finish => sink.finish state

/-- Makes `calls` one after the other, up to the first that is refused. -/
def respondAll (sink : Sink σ) (state : σ) (calls : List SinkCall) : Except BundleError σ :=
  calls.foldlM sink.respond state

@[simp] lemma respondAll_nil (sink : Sink σ) (state : σ) : sink.respondAll state [] = .ok state :=
  rfl

/-- The first `call` is made before the other `calls`. -/
lemma respondAll_cons (sink : Sink σ) (state : σ) (call : SinkCall) (calls : List SinkCall) :
    sink.respondAll state (call :: calls) =
      (sink.respond state call).bind (sink.respondAll · calls) := rfl

/-- All of `calls` and `more` are answered if `calls` are, which leads to some state `middle`, and
`more` are from there on. -/
lemma respondAll_append_eq_ok_iff {sink : Sink σ} {state last : σ} {calls more : List SinkCall} :
    sink.respondAll state (calls ++ more) = .ok last ↔
      ∃ middle, sink.respondAll state calls = .ok middle ∧
        sink.respondAll middle more = .ok last := by
  induction calls generalizing state with
  | nil => simp
  | cons call calls ih =>
    rw [List.cons_append, respondAll_cons, respondAll_cons]
    cases sink.respond state call with
    | error e => simp [Except.bind]
    | ok next => exact ih

/-- Handing over the payloads of `records` (`Sink.feed`) is one way of making calls. -/
lemma respondAll_map_ofRecord (sink : Sink σ) (state : σ)
    (records : List (PartitionSpec × ByteArray)) :
    sink.respondAll state (records.map .ofRecord) = sink.feed state records := by
  rw [respondAll, List.foldlM_map]
  rfl

/-- All of `calls` are answered, or one of them is the first to be refused: those `made` before it
lead to a state `middle`, in which `call` fails with `e`. -/
private lemma respondAll_ok_or_refused (sink : Sink σ) (state : σ) (calls : List SinkCall) :
    (∃ last, sink.respondAll state calls = .ok last) ∨
      ∃ made call later middle e, calls = made ++ call :: later ∧
        sink.respondAll state made = .ok middle ∧ sink.respond middle call = .error e := by
  induction calls generalizing state with
  | nil => exact .inl ⟨state, rfl⟩
  | cons call calls ih =>
    cases hcall : sink.respond state call with
    | error e => exact .inr ⟨[], call, calls, state, e, rfl, rfl, hcall⟩
    | ok next =>
      rcases ih next with ⟨last, hlast⟩ | ⟨made, refused, later, middle, e, rfl, hmade, hrefused⟩
      · exact .inl ⟨last, by rw [respondAll_cons, hcall]; exact hlast⟩
      · exact .inr ⟨call :: made, refused, later, middle, e, rfl,
          by rw [respondAll_cons, hcall]; exact hmade, hrefused⟩

end Sink

/-- The call of a step, if there is one. -/
def ScanEvent.call? : ScanEvent → Option SinkCall
  | .offered spec payload => some (.accept spec payload)
  | .finished => some .finish
  | _ => none

/-- The calls that the scan `s` makes, in their order. -/
def Scan.calls (s : Scan σ α) : List SinkCall :=
  s.events.filterMap ScanEvent.call?

@[simp] lemma Scan.calls_map (f : α → β) (s : Scan σ α) : (s.map f).calls = s.calls := rfl

@[simp] lemma Scan.calls_after (events : List ScanEvent) (s : Scan σ α) :
    (s.after events).calls = events.filterMap ScanEvent.call? ++ s.calls :=
  List.filterMap_append

/-- The calls that are due for the entries `specs` and the `payloads` of a row: one for each valid
payload, and one more if there is a payload for each entry. -/
def dueCalls (specs : List PartitionSpec) (payloads : List ByteArray) : List SinkCall :=
  (Sink.valid (specs.zip payloads)).map .ofRecord ++
    if payloads.length = specs.length then [.finish] else []

/-- A `call` that is due behind the calls `made` hands over a valid payload, and `made` hand over
those before it, or it is `.finish`, and `made` hand over all of them.

**Proof sketch.** The calls that are due are two lists, one behind the other, and `call` begins a
part of one of them (`List.append_eq_append_iff`). The second list has at most one element. -/
lemma exists_of_dueCalls_eq {specs : List PartitionSpec} {payloads : List ByteArray}
    {made later : List SinkCall} {call : SinkCall}
    (h : dueCalls specs payloads = made ++ call :: later) :
    (∃ front record back, Sink.valid (specs.zip payloads) = front ++ record :: back ∧
        made = front.map .ofRecord ∧ call = .ofRecord record) ∨
      payloads.length = specs.length ∧
        made = (Sink.valid (specs.zip payloads)).map .ofRecord ∧ call = .finish := by
  rw [dueCalls] at h
  rcases List.append_eq_append_iff.1 h with ⟨more, hmade, hlast⟩ | ⟨more, haccepts, hlater⟩
  · split at hlast
    · rename_i hlen
      rcases List.cons_eq_append_iff.1 hlast with ⟨rfl, hcall⟩ | ⟨rest, -, hnil⟩
      · exact .inr ⟨hlen, by simpa using hmade, (List.cons.inj hcall).1⟩
      · cases List.append_eq_nil_iff.1 hnil.symm |>.2
    · cases (List.append_eq_nil_iff.1 hlast.symm).2
  · cases more with
    | nil =>
      split at hlater
      · rename_i hlen
        exact .inr ⟨hlen, by simpa using haccepts.symm, (List.cons.inj hlater).1⟩
      · cases hlater
    | cons first more =>
      obtain ⟨rfl, -⟩ := List.cons.inj hlater
      obtain ⟨front, rest, hvalid, rfl, hrest⟩ := List.map_eq_append_iff.1 haccepts
      obtain ⟨record, back, rfl, hrecord, -⟩ := List.map_eq_cons_iff.1 hrest
      exact .inl ⟨front, record, back, hvalid, rfl, hrecord.symm⟩

/-! ## Valid payloads -/

/-- A `payload` is valid for `spec` if it has the declared length, and the stored digest if there is
any. -/
lemma Outcome.isOk_classify_iff {spec : PartitionSpec} {payload : ByteArray} :
    (classify spec payload).isOk ↔ payload.size = spec.payloadSize.toNat ∧
      ∀ digest, spec.sha1 = some digest → digest = "" ∨ digest = shortDigest payload := by
  have hclassifies := classifies_classify spec payload
  generalize classify spec payload = outcome at hclassifies
  cases hclassifies with
  | sizeMismatch size_ne => simp [isOk, size_ne]
  | digestMismatch size_eq stored ne_empty ne_digest => simp [isOk, stored, ne_empty, ne_digest]
  | ok size_eq digest_eq => simpa [isOk, size_eq] using digest_eq

/-- The outcome for a `payload` that is valid for `spec`. -/
lemma Outcome.classify_of_isOk {spec : PartitionSpec} {payload : ByteArray}
    (h : (classify spec payload).isOk) :
    classify spec payload = .ok spec.name payload.size (shortDigest payload) := by
  have hclassifies := classifies_classify spec payload
  generalize classify spec payload = outcome at h hclassifies
  cases hclassifies with
  | sizeMismatch size_ne => cases h
  | digestMismatch size_eq stored ne_empty ne_digest => cases h
  | ok size_eq digest_eq => rfl

/-- The steps at the `records` of a row make the calls for its valid payloads. -/
private lemma ScanEvent.filterMap_call?_ofRecords (offset : Nat)
    (records : List (PartitionSpec × ByteArray)) :
    (ofRecords offset records).filterMap call? = (Sink.valid records).map .ofRecord := by
  induction records generalizing offset with
  | nil => rfl
  | cons record records ih =>
    rw [ofRecords, List.filterMap_append, ih, Sink.valid, Sink.valid, List.filter_cons]
    by_cases hok : (Outcome.classify record.1 record.2).isOk
    · rw [ofRecord, if_pos hok, if_pos hok]
      rfl
    · rw [ofRecord, if_neg hok, if_neg hok]
      rfl

/-- The payload of `spec` is due to be handed over if it is a valid one of the row. -/
lemma accept_mem_dueCalls_iff {specs : List PartitionSpec} {payloads : List ByteArray}
    {spec : PartitionSpec} {payload : ByteArray} :
    .accept spec payload ∈ dueCalls specs payloads ↔
      (spec, payload) ∈ Sink.valid (specs.zip payloads) := by
  have hlast : .accept spec payload ∉
      (if payloads.length = specs.length then [.finish] else [] : List SinkCall) := by
    split <;> simp
  rw [dueCalls, List.mem_append, or_iff_left hlast, List.mem_map]
  constructor
  · rintro ⟨record, hrecord, heq⟩
    cases heq
    exact hrecord
  · exact fun hrecord => ⟨_, hrecord, rfl⟩

/-- The call `.finish` is due if there is a payload for each entry. -/
lemma finish_mem_dueCalls_iff {specs : List PartitionSpec} {payloads : List ByteArray} :
    .finish ∈ dueCalls specs payloads ↔ payloads.length = specs.length := by
  have haccepts : SinkCall.finish ∉ (Sink.valid (specs.zip payloads)).map .ofRecord := by
    rw [List.mem_map]
    rintro ⟨record, -, heq⟩
    cases heq
  rw [dueCalls, List.mem_append, or_iff_right haccepts]
  split <;> simp_all

/-- The payloads that are due to be handed over are those with valid outcomes. For each of them
`SinkCall.outcome?` is the outcome (`Outcome.classify_of_isOk`). -/
private lemma filterMap_outcome?_dueCalls (specs : List PartitionSpec) (payloads : List ByteArray) :
    (dueCalls specs payloads).filterMap SinkCall.outcome? =
      (List.zipWith Outcome.classify specs payloads).filter (·.isOk) := by
  have hlast : (if payloads.length = specs.length then [.finish] else [] : List SinkCall).filterMap
      SinkCall.outcome? = [] := by
    split <;> rfl
  have hcalls : ∀ record ∈ Sink.valid (specs.zip payloads),
      (SinkCall.outcome? ∘ SinkCall.ofRecord) record =
        some (Outcome.classify record.1 record.2) := fun record hrecord =>
    congrArg some (Outcome.classify_of_isOk (List.mem_filter.1 hrecord).2).symm
  rw [dueCalls, List.filterMap_append, hlast, List.append_nil, List.filterMap_map,
    Outcome.zipWith_classify, List.filter_map, List.filterMap_congr hcalls, List.filterMap_eq_map']
  rfl

/-! ## Runs -/

section Run

variable {sink : Sink σ} {data tail : ByteArray} {document : ManifestDocument}
  {declared index offset : Nat} {state middle fed : σ} {e : BundleError}
  {spec : PartitionSpec} {specs before after : List PartitionSpec}
  {payload : ByteArray} {payloads front back : List ByteArray}

/-- **A refused payload** ends the scan of a row. The valid payloads of `front`, which stand before
it, were handed over, the refusal `e` is the result, and nothing of `back` is looked at.

**Proof sketch.** The records of `front` are passed (`scanFrom_tiles`), and the scan behind them
finds a complete record with a valid payload, which the sink refuses in the state `middle`. -/
theorem scanFrom_refused (htiles : Record.Tiles data offset (front ++ payload :: back) tail)
    (hlength : before.length = front.length)
    (hfeed : sink.feed state (Sink.valid (before.zip front)) = .ok middle)
    (hok : (Outcome.classify spec payload).isOk)
    (hrefuse : sink.accept middle spec payload = .error e) :
    scanFrom sink data declared (before ++ spec :: after) index offset state =
      ⟨ScanEvent.ofRecords offset (before.zip front) ++
          ScanEvent.ofRecord (offset + (Record.encodeAll front).size) spec payload,
        middle, .error e⟩ := by
  obtain ⟨⟨rest, hfront⟩, hnext⟩ := Record.tiles_append.1 htiles
  have hread := (Record.tiles_cons.1 hnext).1
  have hzip : (before ++ spec :: after).zip front = before.zip front := by
    rw [← List.append_nil front, List.zip_append hlength, List.zip_nil_right, List.append_nil,
      List.append_nil]
  have hdrop : (before ++ spec :: after).drop front.length = spec :: after := by
    rw [← hlength, List.drop_left]
  rw [scanFrom_tiles hfront (by rw [List.length_append]; omega) (hzip ▸ hfeed), hzip, hdrop,
    scanFrom, hread]
  simp only [hok, ↓reduceIte, hrefuse, ScanEvent.ofRecord]
  rfl

/-- The scan of a row up to the first valid payload that is refused. Those `made` before it bring
the sink to `middle`, where it stays.

**Proof sketch.** The refused `payload` stands in the row, so the row is `front ++ payload :: back`,
and `made` are the valid payloads of `front`. Then `scanFrom_refused` says how the scan ends, and
the calls are read off its steps. -/
lemma scanRecords_of_refused {made later : List (PartitionSpec × ByteArray)}
    (htiles : Record.Tiles data offset payloads tail)
    (hvalid : Sink.valid (document.partitions.zip payloads) = made ++ (spec, payload) :: later)
    (hfeed : sink.feed state made = .ok middle)
    (hrefuse : sink.accept middle spec payload = .error e) :
    (scanRecords sink data document offset state).calls =
        (made ++ [(spec, payload)]).map .ofRecord ∧
      (scanRecords sink data document offset state).sink = middle ∧
      (scanRecords sink data document offset state).result = .error e := by
  -- The valid payloads before the refused one are those of the records in front of its record.
  obtain ⟨first, rest, hzip, hfirst, hrest⟩ := List.filter_eq_append_iff.1 hvalid
  obtain ⟨passed, last, rfl, hpassed, hok, -⟩ := List.filter_eq_cons_iff.1 hrest
  rw [← List.append_assoc] at hzip
  obtain ⟨before, specs, front, payloads, hlength, hspecs, rfl, hfront, hcons⟩ :=
    List.zip_eq_append_iff.1 hzip
  obtain ⟨after, back, rfl, rfl, -⟩ := List.zip_eq_cons_iff.1 hcons.symm
  have hmade : Sink.valid (before.zip front) = made := by
    rw [← hfront, Sink.valid, List.filter_append, hfirst, List.filter_eq_nil_iff.2 hpassed,
      List.append_nil]
  have hrun : scanFrom sink data document.partitions.length (before ++ spec :: after) 0 offset
      state = _ := scanFrom_refused htiles hlength (hmade ▸ hfeed) hok hrefuse
  have hcall : (ScanEvent.ofRecord (offset + (Record.encodeAll front).size) spec payload).filterMap
      ScanEvent.call? = [.ofRecord (spec, payload)] := by
    rw [ScanEvent.ofRecord, if_pos hok]
    rfl
  rw [← hspecs] at hrun
  rw [scanRecords, hrun]
  refine ⟨?_, rfl, rfl⟩
  rw [Scan.calls_map, Scan.calls, List.filterMap_append, ScanEvent.filterMap_call?_ofRecords, hmade,
    hcall, List.map_append]
  rfl

/-- The calls that are due for the longest row are made up to the first that is refused.

**Proof sketch.** Either all calls are answered, or one is the first to be refused
(`Sink.respondAll_ok_or_refused`). If all are, `scanRecords_of_length_lt` and
`scanRecords_of_length_eq` say how the scan ends. If one is not, it is the payload of a record
(`scanRecords_of_refused`) or the last call (`exists_of_dueCalls_eq`). -/
lemma scanRecords_due (sink : Sink σ)
    (h : Record.Longest data offset document.partitions.length payloads) (state : σ) :
    let run := scanRecords sink data document offset state
    (∃ last, sink.respondAll state (dueCalls document.partitions payloads) = .ok last ∧
        run.calls = dueCalls document.partitions payloads ∧ run.sink = last ∧
        run.result = recordsResult data document offset payloads) ∨
      ∃ made call later middle e,
        dueCalls document.partitions payloads = made ++ call :: later ∧
        sink.respondAll state made = .ok middle ∧ sink.respond middle call = .error e ∧
        run.calls = made ++ [call] ∧ run.sink = middle ∧ run.result = .error e := by
  intro run
  obtain ⟨tail, htiles⟩ := h.tiles
  have hcalls := ScanEvent.filterMap_call?_ofRecords offset (document.partitions.zip payloads)
  rcases sink.respondAll_ok_or_refused state (dueCalls document.partitions payloads) with
    ⟨last, hlast⟩ | ⟨made, call, later, middle, e, hdue, hmade, hrefused⟩
  · refine .inl ⟨last, hlast, ?_⟩
    obtain ⟨fed, hfed, hrest⟩ := Sink.respondAll_append_eq_ok_iff.1 hlast
    rw [Sink.respondAll_map_ofRecord] at hfed
    rcases Nat.lt_or_eq_of_le h.length_le with hlt | hlen
    · rw [if_neg (by omega), Sink.respondAll_nil, Except.ok.injEq] at hrest
      have hrun := scanRecords_of_length_lt h hlt hfed
      refine ⟨?_, by rw [← hrest]; exact congrArg Scan.sink hrun, congrArg Scan.result hrun⟩
      rw [dueCalls, if_neg (by omega), List.append_nil, ← hcalls]
      exact congrArg Scan.calls hrun
    · rw [if_pos hlen] at hrest
      have hfinish : sink.finish fed = .ok last := by
        simpa [Sink.respondAll, Sink.respond] using hrest
      have hrun := scanRecords_of_length_eq htiles hlen hfed
      simp only [hfinish] at hrun
      refine ⟨?_, congrArg Scan.sink hrun, congrArg Scan.result hrun⟩
      rw [dueCalls, if_pos hlen, ← hcalls]
      exact (congrArg Scan.calls hrun).trans List.filterMap_append
  · refine .inr ⟨made, call, later, middle, e, hdue, hmade, hrefused, ?_⟩
    rcases exists_of_dueCalls_eq hdue with
      ⟨front, record, back, hvalid, rfl, rfl⟩ | ⟨hlen, rfl, rfl⟩
    · rw [Sink.respondAll_map_ofRecord] at hmade
      have hrun := scanRecords_of_refused htiles hvalid hmade hrefused
      rwa [List.map_append, List.map_singleton] at hrun
    · rw [Sink.respondAll_map_ofRecord] at hmade
      have hrun := scanRecords_of_length_eq htiles hlen hmade
      simp only [show sink.finish middle = .error e from hrefused] at hrun
      refine ⟨?_, congrArg Scan.sink hrun, congrArg Scan.result hrun⟩
      rw [← hcalls]
      exact (congrArg Scan.calls hrun).trans List.filterMap_append

/-- **The calls of a scan.** With any `sink` the calls that are due are made one after the other. If
the sink refuses none of them, all are made and the records alone decide the result; at the first
that it refuses the scan ends, and the refusal `e` is its result. So no payload is handed over but
those of complete records with the declared length and the stored digest. That there are no more is
told at most once, behind all payloads, and just where there was a record for each entry and every
valid payload was taken, with or without bytes behind the last record. In a report, the valid
outcomes are those for the payloads that were handed over.

**Proof sketch.** `scanRecords_due` gives the first part, and with it `run.calls` is a part of the
calls that are due. Those that are due are known: `accept_mem_dueCalls_iff`,
`finish_mem_dueCalls_iff`, and `filterMap_outcome?_dueCalls` for the outcomes. -/
theorem scanRecords_calls (sink : Sink σ) (data : ByteArray) (document : ManifestDocument)
    (offset : Nat) (state : σ) :
    let run := scanRecords sink data document offset state
    ∃ payloads, Record.Longest data offset document.partitions.length payloads ∧
      ((∃ last, sink.respondAll state (dueCalls document.partitions payloads) = .ok last ∧
          run.calls = dueCalls document.partitions payloads ∧ run.sink = last ∧
          run.result = recordsResult data document offset payloads) ∨
        ∃ made call later middle e,
          dueCalls document.partitions payloads = made ++ call :: later ∧
          sink.respondAll state made = .ok middle ∧ sink.respond middle call = .error e ∧
          run.calls = made ++ [call] ∧ run.sink = middle ∧ run.result = .error e) ∧
      (∀ spec payload, .accept spec payload ∈ run.calls →
        (spec, payload) ∈ document.partitions.zip payloads ∧
          payload.size = spec.payloadSize.toNat ∧
          ∀ digest, spec.sha1 = some digest → digest = "" ∨ digest = shortDigest payload) ∧
      (.finish ∈ run.calls ↔ payloads.length = document.partitions.length ∧
        ∃ fed, sink.feed state (Sink.valid (document.partitions.zip payloads)) = .ok fed) ∧
      ∀ report, run.result = .ok report →
        run.calls.filterMap SinkCall.outcome? = report.outcomes.filter (·.isOk) := by
  intro run
  obtain ⟨payloads, h⟩ := Record.exists_longest data offset document.partitions.length
  have hdue := scanRecords_due sink h state
  refine ⟨payloads, h, hdue, fun spec payload hcall => ?_, ?_, fun report hok => ?_⟩
  · have hmem : .accept spec payload ∈ dueCalls document.partitions payloads := by
      rcases hdue with ⟨last, -, hcalls, -⟩ |
        ⟨made, call, later, middle, e, hsplit, -, -, hcalls, -⟩
      · exact hcalls ▸ hcall
      · rw [hsplit, ← List.singleton_append, ← List.append_assoc, ← hcalls]
        exact List.mem_append_left later hcall
    obtain ⟨hrecord, hok⟩ := List.mem_filter.1 (accept_mem_dueCalls_iff.1 hmem)
    exact ⟨hrecord, Outcome.isOk_classify_iff.1 hok⟩
  · rcases hdue with ⟨last, hlast, hcalls, -⟩ |
      ⟨made, call, later, middle, e, hsplit, hmade, hrefused, hcalls, -⟩
    · obtain ⟨fed, hfed, -⟩ := Sink.respondAll_append_eq_ok_iff.1 hlast
      rw [Sink.respondAll_map_ofRecord] at hfed
      rw [hcalls, finish_mem_dueCalls_iff]
      exact ⟨fun hlen => ⟨hlen, fed, hfed⟩, fun h => h.1⟩
    · rw [hcalls]
      rcases exists_of_dueCalls_eq hsplit with
        ⟨front, record, back, hvalid, rfl, rfl⟩ | ⟨hlen, rfl, rfl⟩
      · rw [Sink.respondAll_map_ofRecord] at hmade
        constructor
        · simp [SinkCall.ofRecord]
        · rintro ⟨-, fed, hfed⟩
          obtain ⟨state', hstate', hrecord⟩ := Sink.feed_append_eq_ok_iff.1 (hvalid ▸ hfed)
          obtain rfl : middle = state' := Except.ok.inj (hmade.symm.trans hstate')
          rw [Sink.feed_cons, show sink.accept middle record.1 record.2 = .error e from hrefused]
            at hrecord
          cases hrecord
      · rw [Sink.respondAll_map_ofRecord] at hmade
        exact ⟨fun _ => ⟨hlen, middle, hmade⟩, fun _ => by simp⟩
  · rcases hdue with ⟨last, -, hcalls, -, hresult⟩ |
      ⟨made, call, later, middle, e, -, -, -, -, -, hresult⟩
    · rw [hok, recordsResult] at hresult
      split at hresult
      · cases hresult
      · rw [hcalls, filterMap_outcome?_dueCalls, Except.ok.inj hresult]
    · rw [hok] at hresult
      cases hresult

end Run

end FirmwareBundle
