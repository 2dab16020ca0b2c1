import FirmwareBundle.Proofs.Delivery
import FirmwareBundle.Proofs.PlainDigest
/-!
# Stored digests

A stored digest is compared with the digest of the payload as a text. A text that is not eight
hexadecimal digits in lower case is the digest of no payload, so an entry that stores one is never
valid. An entry that stores the empty text is treated like one that stores nothing: only the length
of its payload counts.

## Main definitions

* `FirmwareBundle.Outcome.mismatch`, `FirmwareBundle.Outcome.ofSize` — the outcomes for a payload
  with another digest than the stored text, and for one of which only the length counts.
* `FirmwareBundle.Scan.EndsRefused` — a scan that ends because a payload is refused.
* `FirmwareBundle.Sink.comap`, `FirmwareBundle.Scan.mapSpec` — a sink that is shown other entries,
  and a scan with other entries in its steps.
* `FirmwareBundle.PartitionSpec.withoutEmptyDigest` — an entry that stores nothing in place of the
  empty text.
* `FirmwareBundle.Scan.Finds` — what a scan finds for an entry.

## Main results

* `FirmwareBundle.scanFrom_cons_cases` — what a scan does at a complete record.
* `FirmwareBundle.scanFrom_events_at` — the steps of a scan at a record of a row.
* `FirmwareBundle.scanFrom_map_specs` — a scan does not depend on what the outcomes do not depend
  on.
* `FirmwareBundle.scanRecords_stored_digests` — which stored digests can be matched, for any scan.
-/

namespace FirmwareBundle

variable {σ α β : Type}

/-! ## Outcomes -/

section Outcome

variable {spec : PartitionSpec} {text : String}

/-- The outcome for a `payload` whose digest is not the stored `text`. -/
def Outcome.mismatch (spec : PartitionSpec) (text : String) (payload : ByteArray) : Outcome :=
  if payload.size = spec.payloadSize.toNat then
    .digestMismatch spec.name text (shortDigest payload)
  else .sizeMismatch spec.name spec.payloadSize.toNat payload.size

/-- The outcome for a `payload` of which only the length counts. -/
def Outcome.ofSize (spec : PartitionSpec) (payload : ByteArray) : Outcome :=
  if payload.size = spec.payloadSize.toNat then .ok spec.name payload.size (shortDigest payload)
  else .sizeMismatch spec.name spec.payloadSize.toNat payload.size

/-- A mismatch is not valid. -/
private lemma Outcome.isOk_mismatch (spec : PartitionSpec) (text : String) (payload : ByteArray) :
    (mismatch spec text payload).isOk = false := by
  rw [mismatch]
  split <;> rfl

/-- **A `text` that is no digest** is matched by no `payload`, since `shortDigest payload` is one
(`isDigest_shortDigest`). -/
theorem Outcome.classify_of_not_isDigest (hstored : spec.sha1 = some text) (hempty : text ≠ "")
    (hdigest : ¬IsDigest text) (payload : ByteArray) :
    classify spec payload = mismatch spec text payload := by
  have hne : text ≠ shortDigest payload := by
    rintro rfl
    exact hdigest (isDigest_shortDigest payload)
  have hclassifies := classifies_classify spec payload
  generalize classify spec payload = outcome at hclassifies
  cases hclassifies with
  | sizeMismatch size_ne => rw [mismatch, if_neg size_ne]
  | digestMismatch size_eq stored ne_empty ne_digest =>
    obtain rfl := Option.some.inj (hstored.symm.trans stored)
    rw [mismatch, if_pos size_eq]
  | ok size_eq digest_eq => exact absurd (digest_eq text hstored) (not_or_intro hempty hne)

/-- **Where no digest is stored**, or an empty one, only the length of the `payload` counts. -/
theorem Outcome.classify_of_expectedDigest_eq_none (h : spec.expectedDigest = none)
    (payload : ByteArray) : classify spec payload = ofSize spec payload := by
  rw [classify, ite_not]
  simp only [h]
  rfl

end Outcome

/-! ## The steps at a record -/

section Steps

variable {data tail : ByteArray} {offset : Nat} {spec : PartitionSpec} {payload : ByteArray}
  {payloads : List ByteArray}

/-- The scan `s` ends with the refusal of a payload by `sink`. -/
def Scan.EndsRefused (sink : Sink σ) (s : Scan σ α) : Prop :=
  ∃ state spec payload e, sink.accept state spec payload = .error e ∧ s.result = .error e

/-- A scan that ends with a refusal still does with its result changed by `f`. -/
lemma Scan.EndsRefused.map {sink : Sink σ} {s : Scan σ α} (h : s.EndsRefused sink) (f : α → β) :
    (s.map f).EndsRefused sink := by
  obtain ⟨state, spec, payload, e, hrefuse, hresult⟩ := h
  exact ⟨state, spec, payload, e, hrefuse, by rw [result_map, hresult]; rfl⟩

/-- **One complete record.** The two steps for it are taken, and then the scan goes on behind it,
with the sink in some state `next`, unless the `payload` is refused.

**Proof sketch.** If the payload is valid, the sink refuses it or takes it; if it is not, the sink
stays as it is. In the last two cases this is `scanFrom_cons`. -/
theorem scanFrom_cons_cases (sink : Sink σ) (declared index : Nat) (state : σ)
    (spec : PartitionSpec) (specs : List PartitionSpec)
    (hread : Record.read data offset = .ok payload) :
    let run := scanFrom sink data declared (spec :: specs) index offset state
    (run.events = ScanEvent.ofRecord offset spec payload ∧ run.EndsRefused sink) ∨
      ∃ next, run = ((scanFrom sink data declared specs (index + 1)
        (offset + Bytes.lengthSize + payload.size) next).map
          (Outcome.classify spec payload :: ·)).after (ScanEvent.ofRecord offset spec payload) := by
  intro run
  by_cases hok : (Outcome.classify spec payload).isOk
  · cases haccept : sink.accept state spec payload with
    | error e =>
      have hrun : run = ⟨ScanEvent.ofRecord offset spec payload, state, .error e⟩ := by
        simp only [run, scanFrom, hread, hok, ↓reduceIte, haccept, ScanEvent.ofRecord]
      exact .inl ⟨congrArg Scan.events hrun, state, spec, payload, e, haccept,
        congrArg Scan.result hrun⟩
    | ok next =>
      refine .inr ⟨next, scanFrom_cons hread ?_⟩
      simp only [Sink.valid, List.filter, hok, Sink.feed_cons, haccept]
      rfl
  · refine .inr ⟨state, scanFrom_cons hread ?_⟩
    simp only [Sink.valid, List.filter, hok, Sink.feed_nil]

/-- **The steps at a record of a row.** Every record takes two steps, so those for the record of
`payloads[i]` are at `2 * i`, unless an earlier payload is refused.

**Proof sketch.** Induction on `specs`, with `scanFrom_cons_cases` for the first record. Its steps
come first; those for a later record are found in the scan behind it, two places earlier. The offset
of that scan is the one behind the first record. -/
theorem scanFrom_events_at (sink : Sink σ) (declared index : Nat) (state : σ)
    {specs : List PartitionSpec} {i : Nat} (htiles : Record.Tiles data offset payloads tail)
    (hspec : specs[i]? = some spec) (hpayload : payloads[i]? = some payload) :
    let run := scanFrom sink data declared specs index offset state
    (run.events.length ≤ 2 * i ∧ run.EndsRefused sink) ∨ (run.events.drop (2 * i)).take 2 =
      ScanEvent.ofRecord (offset + (Record.encodeAll (payloads.take i)).size) spec payload := by
  induction specs generalizing payloads index offset state i with
  | nil => cases hspec
  | cons first specs ih =>
    cases payloads with
    | nil => cases hpayload
    | cons passed payloads =>
      obtain ⟨hread, hrest⟩ := Record.tiles_cons.1 htiles
      intro run
      have hstep : _ ∨ ∃ next, run = _ :=
        scanFrom_cons_cases sink declared index state first specs hread
      cases i with
      | zero =>
        obtain ⟨rfl, rfl⟩ := And.intro (Option.some.inj hspec) (Option.some.inj hpayload)
        refine .inr ?_
        rcases hstep with ⟨hevents, -⟩ | ⟨next, hrun⟩
        · rw [hevents]
          rfl
        · rw [hrun]
          rfl
      | succ i =>
        rcases hstep with ⟨hevents, hrefused⟩ | ⟨next, hrun⟩
        · refine .inl ⟨?_, hrefused⟩
          rw [hevents]
          exact Nat.mul_le_mul_left 2 (Nat.succ_le_succ (Nat.zero_le i))
        · have hcursor : offset + (Record.encodeAll ((passed :: payloads).take (i + 1))).size =
              offset + Bytes.lengthSize + passed.size +
                (Record.encodeAll (payloads.take i)).size := by
            rw [List.take_succ_cons, Record.encodeAll, ByteArray.size_append, Record.size_encode]
            omega
          rw [hcursor, hrun]
          refine (ih (index + 1) next hrest hspec hpayload).imp ?_ id
          rintro ⟨hlength, hrefused⟩
          refine ⟨?_, hrefused.map _⟩
          exact Nat.add_le_add_right hlength 2

end Steps

/-! ## Entries that are scanned alike -/

/-- The `sink` that is shown `f spec` in place of each entry `spec`. -/
def Sink.comap (f : PartitionSpec → PartitionSpec) (sink : Sink σ) : Sink σ where
  accept := fun state spec payload => sink.accept state (f spec) payload
  finish := sink.finish

/-- A step of a scan with `f spec` in place of its entry `spec`. -/
def ScanEvent.mapSpec (f : PartitionSpec → PartitionSpec) : ScanEvent → ScanEvent
  | .offered spec payload => .offered (f spec) payload
  | event => event

/-- The scan `s` with `f spec` in place of each entry `spec` in its steps. -/
def Scan.mapSpec (f : PartitionSpec → PartitionSpec) (s : Scan σ α) : Scan σ α :=
  { s with events := s.events.map (ScanEvent.mapSpec f) }

section Alike

variable {f : PartitionSpec → PartitionSpec}

/-- The entries in the steps `events` before a scan are replaced by themselves. -/
private lemma Scan.mapSpec_after (events : List ScanEvent) (s : Scan σ α) :
    (s.after events).mapSpec f = (s.mapSpec f).after (events.map (ScanEvent.mapSpec f)) := by
  simp [mapSpec, after]

/-- The sink that drops every payload does so whatever it is shown. -/
private lemma Sink.comap_discard : discard.comap f = discard := rfl

/-- The result has no entries in it, so `f` changes nothing there. -/
@[simp] lemma Scan.result_mapSpec (s : Scan σ α) : (s.mapSpec f).result = s.result := rfl

/-- A result is changed by `g` alike with and without other entries in the steps. -/
lemma Scan.mapSpec_map (g : α → β) (s : Scan σ α) :
    (s.map g).mapSpec f = (s.mapSpec f).map g := rfl

/-- **Entries with the same names and outcomes are scanned alike.** If `f` keeps both, `specs.map f`
is scanned as `specs` is; the sink is shown the other entries, and they stand in the steps.

**Proof sketch.** Induction on `specs`. The record for the first entry does not depend on the entry,
its fault depends on the name alone, and by `hclassify` the same is found there. So the same payload
is taken or refused, and the rest is the induction hypothesis. -/
theorem scanFrom_map_specs (hname : ∀ spec, (f spec).name = spec.name)
    (hclassify : ∀ spec payload, Outcome.classify (f spec) payload = Outcome.classify spec payload)
    (sink : Sink σ) (data : ByteArray) (declared : Nat) (specs : List PartitionSpec)
    (index offset : Nat) (state : σ) :
    scanFrom sink data declared (specs.map f) index offset state =
      (scanFrom (sink.comap f) data declared specs index offset state).mapSpec f := by
  induction specs generalizing index offset state with
  | nil =>
    rw [List.map_nil, scanFrom, scanFrom, finishScan, finishScan, Sink.comap]
    cases sink.finish state <;> rfl
  | cons spec specs ih =>
    rw [List.map_cons, scanFrom, scanFrom]
    cases Record.read data offset with
    | error fault => rw [hname]; rfl
    | ok payload =>
      simp only [hname, hclassify, Sink.comap]
      split
      · cases sink.accept state (f spec) payload with
        | error e => rfl
        | ok next =>
          simp only [Scan.mapSpec_after, Scan.mapSpec_map, ih]
          rfl
      · simp only [Scan.mapSpec_after, Scan.mapSpec_map, ih]
        rfl

end Alike

/-! ## Empty digests -/

/-- The entry that stores nothing in place of an empty digest, and is `spec` otherwise. -/
def PartitionSpec.withoutEmptyDigest (spec : PartitionSpec) : PartitionSpec :=
  { spec with sha1 := spec.expectedDigest }

/-- Without an empty digest the entry `spec` asks for the same digest. -/
private lemma PartitionSpec.expectedDigest_withoutEmptyDigest (spec : PartitionSpec) :
    spec.withoutEmptyDigest.expectedDigest = spec.expectedDigest := by
  simp only [withoutEmptyDigest, expectedDigest, Option.filter_filter, Bool.and_self]

/-- So the same is found for `spec` and its `payload`. -/
private lemma Outcome.classify_withoutEmptyDigest (spec : PartitionSpec) (payload : ByteArray) :
    classify spec.withoutEmptyDigest payload = classify spec payload := by
  rw [classify, classify, PartitionSpec.expectedDigest_withoutEmptyDigest]
  rfl

/-- **Tables that differ in empty digests**, those of `document` and `document'`, are scanned alike
by a sink that is not shown them. Both scans are that of the one table without empty digests
(`scanFrom_map_specs`). -/
theorem scanRecords_withoutEmptyDigest {document document' : ManifestDocument}
    (hshape : document'.shape = document.shape)
    (hpartitions : document'.partitions.map (·.withoutEmptyDigest) =
      document.partitions.map (·.withoutEmptyDigest))
    (sink : Sink σ) (data : ByteArray) (offset : Nat) (state : σ) :
    (scanRecords (sink.comap (·.withoutEmptyDigest)) data document' offset state).mapSpec
        (·.withoutEmptyDigest) =
      (scanRecords (sink.comap (·.withoutEmptyDigest)) data document offset state).mapSpec
        (·.withoutEmptyDigest) := by
  have hscan := scanFrom_map_specs (f := (·.withoutEmptyDigest)) (fun _ => rfl)
    Outcome.classify_withoutEmptyDigest sink data
  have hlength : document'.partitions.length = document.partitions.length := by
    simpa using congrArg List.length hpartitions
  rw [scanRecords, scanRecords, Scan.mapSpec_map, Scan.mapSpec_map, ← hscan, ← hscan, hpartitions,
    hlength, hshape]

/-! ## Scans -/

section Run

variable {data : ByteArray} {document : ManifestDocument} {offset : Nat}
  {payloads : List ByteArray}

/-- A `call` that a scan makes is one that is due. -/
private lemma mem_dueCalls_of_mem_calls {sink : Sink σ} {state : σ} {call : SinkCall}
    (h : Record.Longest data offset document.partitions.length payloads)
    (hcall : call ∈ (scanRecords sink data document offset state).calls) :
    call ∈ dueCalls document.partitions payloads := by
  rcases scanRecords_due sink h state with
    ⟨last, -, hcalls, -⟩ | ⟨made, refused, later, middle, e, hsplit, -, -, hcalls, -⟩
  · exact hcalls ▸ hcall
  · rw [hsplit, ← List.singleton_append, ← List.append_assoc, ← hcalls]
    exact List.mem_append_left later hcall

/-- A `report` holds the outcomes for the entries and the complete records. -/
private lemma outcomes_of_scanRecords {sink : Sink σ} {state : σ} {report : ScanReport}
    (h : Record.Longest data offset document.partitions.length payloads)
    (hok : (scanRecords sink data document offset state).result = .ok report) :
    payloads.length = document.partitions.length ∧
      report.outcomes = List.zipWith Outcome.classify document.partitions payloads := by
  rcases scanRecords_due sink h state with
    ⟨last, -, -, -, hresult⟩ | ⟨made, refused, later, middle, e, -, -, -, -, -, hresult⟩
  · rw [hok] at hresult
    obtain ⟨-, rfl⟩ := recordsResult_eq_ok_iff.1 hresult.symm
    exact ⟨(h.end_of_recordsResult hresult.symm).1, rfl⟩
  · cases hresult.symm.trans hok

/-- The scan `run` finds outcomes for the entry `spec` at the index `i` of the table, by the payload
of its record. It takes the two steps for a complete record, and hands over the payload just if the
`outcome` is valid, unless it ends before with a refusal. A report has the outcome at this index. -/
structure Scan.Finds (run : Scan σ ScanReport) (sink : Sink σ) (offset : Nat)
    (payloads : List ByteArray) (i : Nat) (spec : PartitionSpec) (outcome : ByteArray → Outcome) :
    Prop where
  steps : ∀ payload, payloads[i]? = some payload →
    (run.events.length ≤ 2 * i ∧ run.EndsRefused sink) ∨
      (run.events.drop (2 * i)).take 2 =
        [.found spec.name (offset + (Record.encodeAll (payloads.take i)).size) payload.size,
          if (outcome payload).isOk then .offered spec payload else .rejected (outcome payload)]
  report : ∀ report, run.result = .ok report →
    ∃ payload, payloads[i]? = some payload ∧ report.outcomes[i]? = some (outcome payload)

/-- **What a scan finds for an entry** is what is computed for it and its payload.

**Proof sketch.** The steps at the index `i` are those of `scanFrom_events_at`. A report has the
outcomes for the entries and the payloads of the longest row, so the one at `i` is
`outcome payload`. -/
theorem scanRecords_finds (sink : Sink σ) (state : σ) {i : Nat} {spec : PartitionSpec}
    {outcome : ByteArray → Outcome}
    (h : Record.Longest data offset document.partitions.length payloads)
    (hspec : document.partitions[i]? = some spec)
    (houtcome : ∀ payload, Outcome.classify spec payload = outcome payload) :
    (scanRecords sink data document offset state).Finds sink offset payloads i spec outcome where
  steps := by
    intro payload hpayload
    obtain ⟨tail, htiles⟩ := h.tiles
    have hsteps :=
      scanFrom_events_at sink document.partitions.length 0 state htiles hspec hpayload
    rw [ScanEvent.ofRecord, houtcome] at hsteps
    exact hsteps.imp (And.imp_right fun hrefused => hrefused.map _) id
  report := by
    intro report hok
    obtain ⟨hlength, houtcomes⟩ := outcomes_of_scanRecords h hok
    obtain ⟨hi, -⟩ := List.getElem?_eq_some_iff.1 hspec
    refine ⟨payloads[i], List.getElem?_eq_getElem _, ?_⟩
    rw [houtcomes, List.getElem?_zipWith, hspec, List.getElem?_eq_getElem (hlength ▸ hi)]
    exact congrArg some (houtcome _)

/-- **Stored digests.** The digest of any payload is eight hexadecimal digits in lower case. So an
entry that stores another `text`, unless that is empty, is never valid: a mismatch is found for it,
whatever its record holds, and no `sink` is handed its payload. An empty digest is like none: only
the length of the payload counts, and tables that differ in this way are scanned in the same steps
with the same result, by a sink that is shown the one for the other.

**Proof sketch.** `Outcome.classify_of_not_isDigest` and
`Outcome.classify_of_expectedDigest_eq_none` give the outcomes, and `scanRecords_finds` says that
the scan finds them. Only valid payloads are due to be handed over (`accept_mem_dueCalls_iff`), and
a mismatch is not valid. The last part is `scanRecords_withoutEmptyDigest`. -/
theorem scanRecords_stored_digests (sink : Sink σ) (data : ByteArray) (document : ManifestDocument)
    (offset : Nat) (state : σ) :
    let run := scanRecords sink data document offset state
    (∀ payload, IsDigest (shortDigest payload)) ∧
    (∃ payloads, Record.Longest data offset document.partitions.length payloads ∧
      ∀ (i : Nat) (spec : PartitionSpec), document.partitions[i]? = some spec →
        (∀ text, spec.sha1 = some text → text ≠ "" → ¬IsDigest text →
          run.Finds sink offset payloads i spec (.mismatch spec text) ∧
            ∀ payload, .accept spec payload ∉ run.calls) ∧
        (spec.sha1 = none ∨ spec.sha1 = some "" →
          run.Finds sink offset payloads i spec (.ofSize spec))) ∧
    ∀ document' : ManifestDocument, document'.shape = document.shape →
      document'.partitions.map (·.withoutEmptyDigest) =
        document.partitions.map (·.withoutEmptyDigest) →
      (scanRecords (sink.comap (·.withoutEmptyDigest)) data document' offset state).mapSpec
          (·.withoutEmptyDigest) =
        (scanRecords (sink.comap (·.withoutEmptyDigest)) data document offset state).mapSpec
          (·.withoutEmptyDigest) := by
  intro run
  obtain ⟨payloads, h⟩ := Record.exists_longest data offset document.partitions.length
  refine ⟨isDigest_shortDigest, ⟨payloads, h, fun i spec hspec => ⟨?_, fun hstored => ?_⟩⟩,
    fun document' hshape hpartitions =>
      scanRecords_withoutEmptyDigest hshape hpartitions sink data offset state⟩
  · intro text hstored hempty hdigest
    have hclassify := Outcome.classify_of_not_isDigest hstored hempty hdigest
    refine ⟨scanRecords_finds sink state h hspec hclassify, fun payload hcall => ?_⟩
    have hvalid := accept_mem_dueCalls_iff.1 (mem_dueCalls_of_mem_calls h hcall)
    have hok := (List.mem_filter.1 hvalid).2
    rw [hclassify, Outcome.isOk_mismatch] at hok
    cases hok
  · have hnone : spec.expectedDigest = none := by
      rcases hstored with hnone | hempty
      · rw [PartitionSpec.expectedDigest, hnone, Option.filter_none]
      · rw [PartitionSpec.expectedDigest, hempty]
        rfl
    exact scanRecords_finds sink state h hspec (Outcome.classify_of_expectedDigest_eq_none hnone)

/-- The digest of a payload in capital letters is not matched by this payload. The empty digest
beside it asks for nothing. -/
theorem scanRecords_stored_digests_capitals :
    let data : ByteArray := ⟨#[4, 0, 0, 0, 66, 79, 79, 84, 0, 0, 0, 0]⟩
    let boot : PartitionSpec := ⟨"boot", 4, some "CE5EC0EE", none⟩
    let document := fun digest => ManifestDocument.bundle
      { BootParameters.unstated with partitions := [boot, ⟨"kernel", 0, digest, none⟩] }
    let run := scanRecords Sink.discard data (document (some "")) 0 ()
    shortDigest ⟨#[66, 79, 79, 84]⟩ = "ce5ec0ee" ∧
      (∀ payload, .accept boot payload ∉ run.calls) ∧
      (∃ report, run.result = .ok report ∧
        report.outcomes[0]? = some (.digestMismatch "boot" "CE5EC0EE" "ce5ec0ee") ∧
        report.outcomes[1]? = some (.ok "kernel" 0 (shortDigest ⟨#[]⟩))) ∧
      (scanRecords Sink.discard data (document none) 0 ()).result = run.result := by
  intro data boot document run
  have hboot : shortDigest ⟨#[66, 79, 79, 84]⟩ = "ce5ec0ee" := by decide +kernel
  have htiles : Record.Tiles data 0 [⟨#[66, 79, 79, 84]⟩, ⟨#[]⟩] .empty := ⟨by decide, by decide⟩
  have hok : run.result = _ :=
    scanRecords_of_tiles Sink.discard_neverFails (Nat.zero_le _) rfl htiles ()
  obtain ⟨-, ⟨payloads, hlongest, hentries⟩, halike⟩ :=
    scanRecords_stored_digests Sink.discard data (document (some "")) 0 ()
  obtain rfl := hlongest.unique (htiles.longest rfl)
  obtain ⟨hfinds, hcalls⟩ := (hentries 0 boot rfl).1 "CE5EC0EE" rfl (by decide) (by decide)
  have hfinds' := (hentries 1 ⟨"kernel", 0, some "", none⟩ rfl).2 (.inr rfl)
  refine ⟨hboot, hcalls, ⟨_, hok, ?_, ?_⟩, ?_⟩
  · obtain ⟨payload, hpayload, houtcome⟩ := hfinds.report _ hok
    obtain rfl := Option.some.inj hpayload
    rw [houtcome, Outcome.mismatch, hboot]
    rfl
  · obtain ⟨payload, hpayload, houtcome⟩ := hfinds'.report _ hok
    obtain rfl := Option.some.inj hpayload
    rw [houtcome]
    rfl
  · have hresult := congrArg Scan.result (halike (document none) rfl rfl)
    rwa [Scan.result_mapSpec, Scan.result_mapSpec, Sink.comap_discard] at hresult

end Run

end FirmwareBundle
