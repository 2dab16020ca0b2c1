import FirmwareBundle.Proofs.RecordGrammar
/-!
# Each record for itself

Where a record ends is said by the record alone. So two tables of the same length see the same
records, whatever they say about them, and the outcome for an entry changes neither with the other
entries nor with the other records.

## Main definitions

* `FirmwareBundle.BrokenDump.unnamed` — a broken dump without the name of its partition.
* `FirmwareBundle.Record.replace` — the data with one of its records replaced by another.

## Main results

* `FirmwareBundle.structuralFault_eq_none_or` — the names in a table decide about no fault but the
  name that it shows.
* `FirmwareBundle.Record.Tiles.replace` — a row with one of its records replaced.
* `FirmwareBundle.scanRecords_independent` — the scans of one row against two tables, and of two
  rows against one table.
-/

namespace FirmwareBundle

/-! ## Two tables -/

/-- The broken dump without the name of its partition. -/
def BrokenDump.unnamed : BrokenDump → BrokenDump
  | .truncatedRecord _ offset length available => .truncatedRecord "" offset length available
  | reason => reason

/-- The error for an entry whose record has a `fault` is a broken dump, which depends on `name` only
by showing it. -/
lemma Record.Fault.exists_toError_eq (fault : Record.Fault) (name name' : String)
    (index declared offset : Nat) :
    ∃ reason reason', fault.toError name index declared offset = .broken reason ∧
      fault.toError name' index declared offset = .broken reason' ∧
      reason.unnamed = reason'.unnamed := by
  cases fault with
  | absent => exact ⟨_, _, rfl, rfl, rfl⟩
  | truncated length available => exact ⟨_, _, rfl, rfl, rfl⟩

/-- **Names make no fault.** With the entries `names` or `names'` of two tables of the same length
there is no fault behind `offset` with either, or the same broken dump with both, apart from the
name of a partition.

**Proof sketch.** Which record is missing depends on the number of names alone. If there is one for
each, there is a fault with both or with neither, and it shows no name; if not, the record that is
missing has the same `Record.Fault` with both (`Record.Fault.exists_toError_eq`). -/
theorem structuralFault_eq_none_or (data : ByteArray) (offset : Nat) (payloads : List ByteArray)
    {names names' : List String} (hlen : names'.length = names.length) :
    structuralFault data names offset payloads = none ∧
        structuralFault data names' offset payloads = none ∨
      ∃ reason reason', structuralFault data names offset payloads = some (.broken reason) ∧
        structuralFault data names' offset payloads = some (.broken reason') ∧
        reason.unnamed = reason'.unnamed := by
  have hleft : (names'.drop payloads.length).length = (names.drop payloads.length).length := by
    rw [List.length_drop, List.length_drop, hlen]
  unfold structuralFault
  cases hdrop : names.drop payloads.length with
  | nil =>
    have hdrop' : names'.drop payloads.length = [] := by
      rwa [hdrop, List.length_nil, List.length_eq_zero_iff] at hleft
    rw [hdrop']
    dsimp only
    split
    · exact .inl ⟨rfl, rfl⟩
    · exact .inr ⟨_, _, rfl, rfl, rfl⟩
  | cons name rest =>
    obtain ⟨name', rest', hdrop'⟩ := List.exists_cons_of_length_pos
      (by rw [hleft, hdrop]; exact Nat.zero_lt_succ _ : 0 < (names'.drop payloads.length).length)
    rw [hdrop']
    dsimp only
    cases Record.read data (offset + (Record.encodeAll payloads).size) with
    | ok payload => exact .inl ⟨rfl, rfl⟩
    | error fault =>
      obtain ⟨reason, reason', h, h', hsame⟩ := fault.exists_toError_eq name name'
        payloads.length names.length (offset + (Record.encodeAll payloads).size)
      exact .inr ⟨reason, reason', congrArg some h, by rw [hlen]; exact congrArg some h', hsame⟩

/-! ## Two rows -/

namespace Record

variable {data tail : ByteArray} {offset : Nat} {front back : List ByteArray}
  {old new : ByteArray}

/-- The `data` with the record of `old` at `cursor` replaced by the record of `new`. -/
def replace (data : ByteArray) (cursor : Nat) (old new : ByteArray) : ByteArray :=
  data.extract 0 cursor ++
    (encode new ++ data.extract (cursor + (encode old).size) data.size)

/-- Behind what is written `before` a record only that record is replaced. -/
lemma replace_append (before after old new : ByteArray) :
    replace (before ++ (encode old ++ after)) before.size old new =
      before ++ (encode new ++ after) := by
  have hafter : (before ++ (encode old ++ after)).extract (before.size + (encode old).size)
      (before ++ (encode old ++ after)).size = after := by
    rw [← ByteArray.append_assoc]
    exact ByteArray.extract_append_eq_right ByteArray.size_append.symm ByteArray.size_append
  rw [replace, hafter, ByteArray.extract_append_eq_left rfl]

/-- What stands before `cursor` is still there when a record is replaced there. -/
private lemma le_size_replace {cursor : Nat} (h : cursor ≤ data.size) :
    cursor ≤ (replace data cursor old new).size := by
  rw [replace, ByteArray.size_append, ByteArray.size_extract]
  omega

/-- **A row with one of its records replaced** holds the payloads `front` and `back` as before. The
length of `new` must fit into the four bytes of a length.

**Proof sketch.** The data are what stands before the row, the records of `front`, that of `old` and
what stands behind it. Replacing that record leaves the rest (`Record.replace_append`), so a row is
put together of the same parts (`Record.tiles_append_left`). -/
theorem Tiles.replace (h : Tiles data offset (front ++ old :: back) tail) (ho : offset ≤ data.size)
    (hnew : new.size < 2 ^ 32) :
    Tiles (replace data (offset + (encodeAll front).size) old new) offset
      (front ++ new :: back) tail := by
  obtain ⟨before, rfl, rfl⟩ := h.exists_eq_append ho
  have hrow : ∀ payload : ByteArray,
      before ++ (encodeAll (front ++ payload :: back) ++ tail) =
        (before ++ encodeAll front) ++ (encode payload ++ (encodeAll back ++ tail)) := by
    intro payload
    simp only [encodeAll_append, encodeAll, ByteArray.append_assoc]
  rw [hrow old, ← ByteArray.size_append, replace_append, ← hrow new]
  refine tiles_append_left before fun payload hpayload => ?_
  rcases List.mem_append.1 hpayload with hfront | hback
  · exact h.short payload (List.mem_append_left _ hfront)
  rcases List.mem_cons.1 hback with rfl | hback
  · exact hnew
  · exact h.short payload (List.mem_append_right _ (List.mem_cons_of_mem old hback))

end Record

/-! ## Scans side by side -/

/-- **Nothing but an entry and its record decides about them.**

Scanned against `document` and another `document'` whose table has the same length, `data` is either
accepted with both or refused with both for the same reason, apart from the name of a partition; and
if it is accepted, the outcomes for entries that are equal are equal, whatever the other entries
are.

Scanned against `document` alone, a row of complete records is still accepted when the payload `old`
of one of them is replaced by a `new` one of any length, and only the outcome for that entry
changes: it is the one for the entry and its new payload.

**Proof sketch.** The longest row is the same for both tables, and by `structuralFault_eq_none_or`
so is its fault. If there is none, the outcomes are those of the pairs. For the second part, the row
with `old` replaced by `new` stands in the new data (`Record.Tiles.replace`), so it is accepted
(`scanRecords_of_tiles`), and its pairs differ from the old ones at one place. -/
theorem scanRecords_independent {σ τ : Type} (sink : Sink σ) (hsink : sink.NeverFails)
    (other : Sink τ) (hother : other.NeverFails) (data : ByteArray) (offset : Nat)
    (document : ManifestDocument) (state : σ) (state' : τ) :
    (∀ document' : ManifestDocument,
      document'.partitions.length = document.partitions.length →
      document'.shape = document.shape →
      (∃ report report',
        (scanRecords sink data document offset state).result = .ok report ∧
        (scanRecords other data document' offset state').result = .ok report' ∧
        report.shape = report'.shape ∧ report.totalBytes = report'.totalBytes ∧
        report.outcomes.length = document.partitions.length ∧
        report'.outcomes.length = document.partitions.length ∧
        ∀ i : Nat, document.partitions[i]? = document'.partitions[i]? →
          report.outcomes[i]? = report'.outcomes[i]?) ∨
      ∃ reason reason',
        (scanRecords sink data document offset state).result = .error (.broken reason) ∧
        (scanRecords other data document' offset state').result = .error (.broken reason') ∧
        reason.unnamed = reason'.unnamed) ∧
    ∀ (front : List ByteArray) (old : ByteArray) (back : List ByteArray) (new : ByteArray),
      offset ≤ data.size → (front ++ old :: back).length = document.partitions.length →
      Record.Tiles data offset (front ++ old :: back) .empty → new.size < 2 ^ 32 →
      ∃ report report',
        (scanRecords sink data document offset state).result = .ok report ∧
        (scanRecords other
          (Record.replace data (offset + (Record.encodeAll front).size) old new) document offset
          state').result = .ok report' ∧
        report.outcomes.length = document.partitions.length ∧
        report'.outcomes.length = document.partitions.length ∧
        (∀ i : Nat, i ≠ front.length → report.outcomes[i]? = report'.outcomes[i]?) ∧
        ∃ spec outcome, document.partitions[front.length]? = some spec ∧
          report'.outcomes[front.length]? = some outcome ∧
          Outcome.Classifies spec new outcome := by
  refine ⟨fun document' hlen hshape => ?_, fun front old back new ho hlen htiles hnew => ?_⟩
  · obtain ⟨payloads, h⟩ := Record.exists_longest data offset document.partitions.length
    have h' : Record.Longest data offset document'.partitions.length payloads := hlen ▸ h
    have hnames :
        Record.Longest data offset (document.partitions.map (·.name)).length payloads := by
      rwa [List.length_map]
    rw [scanRecords_result hsink h, scanRecords_result hother h']
    rcases structuralFault_eq_none_or data offset payloads
      (by simpa using hlen : (document'.partitions.map (·.name)).length =
        (document.partitions.map (·.name)).length) with
      ⟨hnone, hnone'⟩ | ⟨reason, reason', hsome, hsome', hsame⟩
    · have hcount := (hnames.structuralFault_eq_none_iff.1 hnone).1
      rw [List.length_map] at hcount
      rw [hnone, hnone']
      refine .inl ⟨_, _, rfl, rfl, hshape.symm, rfl, ?_, ?_, fun i hi => ?_⟩
      · rw [List.length_zipWith, hcount, Nat.min_self]
      · rw [List.length_zipWith, hcount, hlen, Nat.min_self]
      · rw [List.getElem?_zipWith, List.getElem?_zipWith, hi]
    · rw [hsome, hsome']
      exact .inr ⟨reason, reason', rfl, rfl, hsame⟩
  · have hlen' : (front ++ new :: back).length = document.partitions.length := by
      rw [← hlen, List.length_append, List.length_append, List.length_cons, List.length_cons]
    have hsize : offset ≤
        (Record.replace data (offset + (Record.encodeAll front).size) old new).size := by
      have hcursor := htiles.size_eq ho
      rw [Record.encodeAll_append, ByteArray.size_append] at hcursor
      exact Nat.le_trans (Nat.le_add_right _ _) (Record.le_size_replace (by omega))
    refine ⟨_, _, scanRecords_of_tiles hsink ho hlen htiles state,
      scanRecords_of_tiles hother hsize hlen' (htiles.replace ho hnew) state', ?_, ?_,
      fun i hi => ?_, ?_⟩
    · rw [List.length_zipWith, hlen, Nat.min_self]
    · rw [List.length_zipWith, hlen', Nat.min_self]
    · have hpayload : (front ++ old :: back)[i]? = (front ++ new :: back)[i]? := by
        have hset : front ++ new :: back = (front ++ old :: back).set front.length new := by simp
        rw [hset, List.getElem?_set_ne (Ne.symm hi)]
      rw [List.getElem?_zipWith, List.getElem?_zipWith, hpayload]
    · have hlt : front.length < document.partitions.length := by
        rw [← hlen, List.length_append, List.length_cons]
        omega
      refine ⟨document.partitions[front.length], _, List.getElem?_eq_getElem hlt, ?_,
        Outcome.classifies_classify _ new⟩
      rw [List.getElem?_zipWith, List.getElem?_eq_getElem hlt]
      simp

/-- A record of two bytes and an empty record are scanned against two tables that have only their
second entry in common, and then with three bytes in the place of the two. -/
theorem scanRecords_independent_second_record :
    let data : ByteArray := ⟨#[9, 2, 0, 0, 0, 7, 0, 0, 0, 0, 0]⟩
    let document := ManifestDocument.bundle
      { BootParameters.unstated with partitions := [⟨"a", 2, none, none⟩, ⟨"b", 1, none, none⟩] }
    let document' := ManifestDocument.bundle
      { BootParameters.unstated with
        partitions := [⟨"c", 5, some "00000000", none⟩, ⟨"b", 1, none, none⟩] }
    let old : ByteArray := ⟨#[7, 0]⟩
    let new : ByteArray := ⟨#[1, 2, 3]⟩
    Sink.discard.NeverFails ∧ document'.partitions.length = document.partitions.length ∧
      document'.shape = document.shape ∧ document.partitions[1]? = document'.partitions[1]? ∧
      1 ≤ data.size ∧ [old, .empty].length = document.partitions.length ∧
      Record.Tiles data 1 [old, .empty] .empty ∧ new.size < 2 ^ 32 ∧
      (∃ report report',
        (scanRecords Sink.discard data document 1 ()).result = .ok report ∧
        (scanRecords Sink.discard data document' 1 ()).result = .ok report' ∧
        report.outcomes[1]? = report'.outcomes[1]?) ∧
      ∃ report report',
        (scanRecords Sink.discard data document 1 ()).result = .ok report ∧
        (scanRecords Sink.discard (Record.replace data 1 old new) document 1 ()).result =
          .ok report' ∧
        report.outcomes[1]? = report'.outcomes[1]? := by
  intro data document document' old new
  have htiles : Record.Tiles data 1 [old, .empty] .empty := ⟨by decide, by decide⟩
  obtain ⟨htables, hrows⟩ := scanRecords_independent Sink.discard Sink.discard_neverFails
    Sink.discard Sink.discard_neverFails data 1 document () ()
  obtain ⟨report, report', hok, hok', -, -, hsame, -⟩ :=
    hrows [] old [.empty] new (by decide) rfl htiles (by decide)
  refine ⟨Sink.discard_neverFails, rfl, rfl, rfl, by decide, rfl, htiles, by decide, ?_,
    report, report', hok, hok', hsame 1 (by decide)⟩
  rcases htables document' rfl rfl with
    ⟨first, second, hfirst, hsecond, -, -, -, -, hequal⟩ | ⟨reason, reason', herror, -⟩
  · exact ⟨first, second, hfirst, hsecond, hequal 1 rfl⟩
  · rw [hok] at herror
    cases herror

end FirmwareBundle
