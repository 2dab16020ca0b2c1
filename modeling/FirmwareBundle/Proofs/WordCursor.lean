import FirmwareBundle.Proofs.MovedRecords
import FirmwareBundle.Proofs.Results
import FirmwareBundle.Proofs.StoredDigests
/-!
# The cursor of a scan on machine words

A machine reads a bundle with words of `w` bits. Every place in the data is a word, and places are
found by differences and sums of words. Here the reader is written down with the operations of such
a machine, which stops at a difference below zero, at a sum that does not fit in a word, and at a
part that is not inside the data. It is never stopped, whatever the lengths in the data are, and
finds what the reader on natural numbers finds.

## Main definitions

* `FirmwareBundle.Trap` — why a machine stops.
* `FirmwareBundle.Word.sub`, `FirmwareBundle.Word.add`, `FirmwareBundle.Word.slice` — the operations
  that may stop it.
* `FirmwareBundle.Word.Cursor` — a cursor with all places where it stood.
* `FirmwareBundle.Word.readManifest`, `FirmwareBundle.Word.scanRecords`,
  `FirmwareBundle.Word.scan` — the reader on words.
* `FirmwareBundle.Word.Cursor.Passes` — a cursor that is moved past records.
* `FirmwareBundle.Record.stops` — where a cursor stands on its way past records.

## Main results

* `FirmwareBundle.Word.run_readRecord` — the record at a cursor, and the cursor behind it.
* `FirmwareBundle.Word.run_scanFrom` — the records from a cursor on.
* `FirmwareBundle.Word.Cursor.Passes.trail_eq`, `FirmwareBundle.Word.Cursor.Passes.mem_trail` — the
  places of a cursor, and their bounds.
* `FirmwareBundle.Word.scan_eq_ok` — the reader on words is never stopped.
* `FirmwareBundle.cursor_inside_data` — the places of a cursor for any data.

## Implementation notes

Any length of a record fits in a word of at least 32 bits, so that a length is a word without loss.
A machine holds its data only if their size fits in a word. Nothing else is asked of `w`.
-/

namespace FirmwareBundle

variable {w : Nat} {σ α β : Type}

/-- Why a machine stops: a difference is below zero, a sum does not fit in a word, a part of the
data is not inside them, or a length is not read from as many bytes as it has. -/
inductive Trap where
  | underflow | overflow | outOfRange | wrongSize
  deriving DecidableEq

namespace Word

/-! ## Operations of a machine -/

/-- The difference of the words `a` and `b`. -/
def sub (a b : BitVec w) : Except Trap (BitVec w) :=
  if a.toNat < b.toNat then .error .underflow else .ok (a - b)

/-- The sum of the words `a` and `b`. -/
def add (a b : BitVec w) : Except Trap (BitVec w) :=
  if a.toNat + b.toNat < 2 ^ w then .ok (a + b) else .error .overflow

/-- The part of `data` from the place `first` up to `last`. -/
def slice (data : ByteArray) (first last : BitVec w) : Except Trap ByteArray :=
  if first.toNat ≤ last.toNat ∧ last.toNat ≤ data.size then
    .ok (data.extract first.toNat last.toNat)
  else .error .outOfRange

/-- The length that is written in four `bytes`. -/
def readLength (bytes : ByteArray) : Except Trap (BitVec 32) :=
  if bytes.size = Bytes.lengthSize then .ok (BitVec.ofNat 32 (Bytes.lengthAt bytes 0))
  else .error .wrongSize

/-! ## Cursors -/

/-- A cursor: the `place` where it stands and those where it stood before, the last of them
first. -/
structure Cursor (w : Nat) where
  place : BitVec w
  passed : List (BitVec w) := []

namespace Cursor

/-- The `cursor` moved to `place`. -/
def moveTo (cursor : Cursor w) (place : BitVec w) : Cursor w :=
  ⟨place, cursor.place :: cursor.passed⟩

/-- The `cursor` moved by `n` bytes. -/
def moveBy (cursor : Cursor w) (n : Nat) : Cursor w :=
  cursor.moveTo (cursor.place + BitVec.ofNat w n)

/-- The `cursor` behind what was read as a record: behind the payload, or behind the length if the
payload is cut off. -/
def behind (cursor : Cursor w) : Except Record.Fault ByteArray → Cursor w
  | .error .absent => cursor
  | .error (.truncated ..) => cursor.moveBy Bytes.lengthSize
  | .ok payload => (cursor.moveBy Bytes.lengthSize).moveBy payload.size

/-- All places of the `cursor`, in the order in which it took them. -/
def trail (cursor : Cursor w) : List Nat :=
  (cursor.place :: cursor.passed).reverse.map BitVec.toNat

end Cursor

/-- What a machine does that moves a cursor. -/
abbrev Moving (w : Nat) := StateT (Cursor w) (Except Trap)

/-- The place of the cursor. -/
def place : Moving w (BitVec w) := do
  return (← get).place

/-- Moves the cursor by `n` bytes. -/
def advance (n : BitVec w) : Moving w Unit := do
  let next ← add (← place) n
  modify (·.moveTo next)

/-- The number of bytes from the cursor to the end of `data`. -/
def remaining (data : ByteArray) : Moving w (BitVec w) := do
  sub (BitVec.ofNat w data.size) (← place)

/-- Takes `n` bytes at the cursor, and moves it behind them. -/
def take (data : ByteArray) (n : BitVec w) : Moving w ByteArray := do
  let bytes ← slice data (← place) (← add (← place) n)
  advance n
  return bytes

/-! ## The reader on words -/

/-- The number of bytes of a length, as a word. -/
def lengthSize : BitVec w := BitVec.ofNat w Bytes.lengthSize

/-- Reads the record at the cursor, which moves behind what is there of it. -/
def readRecord (data : ByteArray) : Moving w (Except Record.Fault ByteArray) := do
  if (← remaining data).toNat < (lengthSize : BitVec w).toNat then
    return .error .absent
  let length ← readLength (← take data lengthSize)
  let available ← remaining data
  if available.toNat < (length.setWidth w).toNat then
    return .error (.truncated length.toNat available.toNat)
  return .ok (← take data (length.setWidth w))

/-- Reads one record for each entry from the cursor on, as `FirmwareBundle.scanFrom` does. -/
def scanFrom (sink : Sink σ) (data : ByteArray) (declared : Nat) :
    List PartitionSpec → (index : Nat) → σ → Moving w (Scan σ (List Outcome))
  | [], _, state => return finishScan sink data (← place).toNat state
  | spec :: specs, index, state => do
    let start ← place
    match ← readRecord data with
    | .error fault =>
      return ⟨[], state, .error (fault.toError spec.name index declared start.toNat)⟩
    | .ok payload =>
      let found := ScanEvent.found spec.name start.toNat payload.size
      let outcome := Outcome.classify spec payload
      if outcome.isOk then
        let offered := ScanEvent.offered spec payload
        match sink.accept state spec payload with
        | .error e => return ⟨[found, offered], state, .error e⟩
        | .ok state =>
          let rest ← scanFrom sink data declared specs (index + 1) state
          return (rest.map (outcome :: ·)).after [found, offered]
      else
        let rest ← scanFrom sink data declared specs (index + 1) state
        return (rest.map (outcome :: ·)).after [found, .rejected outcome]

/-- Scans the records of a bundle from the cursor on. -/
def scanRecords (sink : Sink σ) (data : ByteArray) (document : ManifestDocument) (state : σ) :
    Moving w (Scan σ ScanReport) := do
  let run ← scanFrom sink data document.partitions.length document.partitions 0 state
  return run.map fun outcomes => ⟨document.shape, outcomes, data.size⟩

/-- The header of a bundle and the place of the first record. -/
def readManifest (w : Nat) (data : ByteArray) :
    Except Trap (Except BundleError (ManifestDocument × BitVec w)) :=
  match Bytes.firstZero data with
  | none => return .error (.broken .missingTerminator)
  | some i => do
    let length := BitVec.ofNat w i
    match ManifestDocument.ofText (← slice data 0#w length) with
    | .error fault => return .error (.manifest fault)
    | .ok document => return .ok (document, ← add length 1#w)

/-- Scans a bundle. -/
def scan (w : Nat) (sink : Sink σ) (data : ByteArray) (state : σ) :
    Except Trap (Scan σ ScanReport) := do
  match ← readManifest w data with
  | .error e => return ⟨[], state, .error e⟩
  | .ok (document, offset) =>
    let (run, _) ← (scanRecords sink data document state).run { place := offset }
    return run.after [.parsed document]

/-! ## Operations that are not stopped -/

/-- A number `n` below `2 ^ w` is a word without loss. -/
private lemma toNat_ofNat {n : Nat} (h : n < 2 ^ w) : (BitVec.ofNat w n).toNat = n := by
  rw [BitVec.toNat_ofNat, Nat.mod_eq_of_lt h]

/-- The smaller word `b` is taken from the larger one `a`. -/
private lemma sub_eq_ok {a b : BitVec w} (h : b.toNat ≤ a.toNat) : sub a b = .ok (a - b) :=
  if_neg (Nat.not_lt.2 h)

/-- The words `a` and `b` are added if their sum fits in a word. -/
private lemma add_eq_ok {a b : BitVec w} (h : a.toNat + b.toNat < 2 ^ w) : add a b = .ok (a + b) :=
  if_pos h

/-- A part inside the data, from `first` to `last`, is taken. -/
private lemma slice_eq_ok {data : ByteArray} {first last : BitVec w} (h : first.toNat ≤ last.toNat)
    (hlast : last.toNat ≤ data.size) :
    slice data first last = .ok (data.extract first.toNat last.toNat) :=
  if_pos ⟨h, hlast⟩

/-- The length in the four bytes at `offset` is the one that is read there (`Bytes.lengthAt`). -/
private lemma readLength_extract {data : ByteArray} {offset : Nat}
    (h : offset + Bytes.lengthSize ≤ data.size) :
    readLength (data.extract offset (offset + Bytes.lengthSize)) =
      .ok (BitVec.ofNat 32 (Bytes.lengthAt data offset)) := by
  rw [← Bytes.ofLength_lengthAt h, readLength, if_pos (Bytes.size_ofLength _),
    Bytes.lengthAt_ofLength, Nat.mod_eq_of_lt (Bytes.lengthAt_lt data offset)]

/-- The number of bytes of a length fits in a word. -/
private lemma toNat_lengthSize (hw : 32 ≤ w) : (lengthSize : BitVec w).toNat = Bytes.lengthSize :=
  toNat_ofNat (Nat.lt_of_lt_of_le (by decide : Bytes.lengthSize < 2 ^ 32)
    (Nat.pow_le_pow_right (by decide) hw))

/-- A length `n` is a word without loss. -/
private lemma toNat_setWidth_ofNat (hw : 32 ≤ w) {n : Nat} (hn : n < 2 ^ 32) :
    ((BitVec.ofNat 32 n).setWidth w).toNat = n := by
  rw [BitVec.toNat_setWidth_of_le hw, toNat_ofNat hn]

/-! ## Moves that are not stopped -/

section Moves

variable {data : ByteArray} {c : Cursor w}

/-- What is done behind something else starts where that ends, at `next`. -/
private lemma run_bind {x : Moving w α} {f : α → Moving w β} {next : Cursor w} {a : α}
    (h : x.run c = .ok (a, next)) : (x >>= f).run c = (f a).run next := by
  rw [StateT.run_bind, h]
  rfl

/-- An operation that is not stopped leaves the cursor `c` where it is. -/
private lemma run_liftM {x : Except Trap α} {a : α} (h : x = .ok a) (c : Cursor w) :
    (liftM x : Moving w α).run c = .ok (a, c) := by
  rw [h]
  rfl

/-- Asking for the place leaves the cursor `c` where it is. -/
private lemma run_place (c : Cursor w) :
    (place : Moving w (BitVec w)).run c = .ok (c.place, c) := rfl

/-- The cursor `c` stands `n` bytes further on when it was moved by `n`. -/
private lemma Cursor.toNat_place_moveBy {n : Nat} (h : c.place.toNat + n < 2 ^ w) :
    (c.moveBy n).place.toNat = c.place.toNat + n := by
  have hn : (BitVec.ofNat w n).toNat = n := toNat_ofNat (by omega)
  rw [moveBy, moveTo, BitVec.toNat_add_of_lt (by rwa [hn]), hn]

/-- A move by `n` adds one place to those of the cursor `c`. -/
private lemma Cursor.trail_moveBy {n : Nat} (h : c.place.toNat + n < 2 ^ w) :
    (c.moveBy n).trail = c.trail ++ [c.place.toNat + n] := by
  rw [trail, List.reverse_cons, List.map_append, List.map_singleton, toNat_place_moveBy h]
  rfl

/-- The cursor `c` is moved by `n` if its new place fits in a word. -/
private lemma run_advance {n : BitVec w} (h : c.place.toNat + n.toNat < 2 ^ w) :
    (advance n).run c = .ok ((), c.moveBy n.toNat) := by
  rw [advance, run_bind (run_place c), run_bind (run_liftM (add_eq_ok h) c), Cursor.moveBy,
    BitVec.ofNat_toNat, BitVec.setWidth_eq]
  rfl

/-- The bytes behind a cursor inside the data are counted. -/
private lemma run_remaining (hsize : data.size < 2 ^ w) (hc : c.place.toNat ≤ data.size) :
    (remaining data).run c = .ok (BitVec.ofNat w (data.size - c.place.toNat), c) := by
  have hle : c.place.toNat ≤ (BitVec.ofNat w data.size).toNat := by rwa [toNat_ofNat hsize]
  have hleft : BitVec.ofNat w data.size - c.place =
      BitVec.ofNat w (data.size - c.place.toNat) := by
    rw [← BitVec.toNat_inj, BitVec.toNat_sub_of_le hle, toNat_ofNat hsize, toNat_ofNat (by omega)]
  rw [remaining, run_bind (run_place c), run_liftM (sub_eq_ok hle), hleft]

/-- The `n` bytes behind the cursor `c` are taken if there are so many, and the cursor moves behind
them. -/
private lemma run_take {n : BitVec w} (hsize : data.size < 2 ^ w)
    (hn : c.place.toNat + n.toNat ≤ data.size) :
    (take data n).run c =
      .ok (data.extract c.place.toNat (c.place.toNat + n.toNat), c.moveBy n.toNat) := by
  have hfits : c.place.toNat + n.toNat < 2 ^ w := by omega
  have hlast : (c.place + n).toNat = c.place.toNat + n.toNat := BitVec.toNat_add_of_lt hfits
  have hslice : slice data c.place (c.place + n) = _ :=
    slice_eq_ok (by rw [hlast]; exact Nat.le_add_right _ _) (by rwa [hlast])
  rw [take, run_bind (run_place c), run_bind (run_place c),
    run_bind (run_liftM (add_eq_ok hfits) c), run_bind (run_liftM hslice c),
    run_bind (run_advance hfits), hlast]
  rfl

/-- **One record.** A machine with a cursor `c` inside the data reads the record there without being
stopped, and finds what is found on natural numbers.

**Proof sketch.** A length is taken only where four bytes are left, and a payload only where as many
bytes are left as the length says. So each sum that is formed is at most the size of the data
(`Word.run_take`), and each difference is taken from that size (`Word.run_remaining`). -/
theorem run_readRecord (hw : 32 ≤ w) (hsize : data.size < 2 ^ w) (hc : c.place.toNat ≤ data.size) :
    (readRecord data).run c =
      .ok (Record.read data c.place.toNat, c.behind (Record.read data c.place.toNat)) := by
  have hfour : (lengthSize : BitVec w).toNat = Bytes.lengthSize := toNat_lengthSize hw
  have hlength := toNat_setWidth_ofNat hw (Bytes.lengthAt_lt data c.place.toNat)
  rw [readRecord, run_bind (run_remaining hsize hc), toNat_ofNat (by omega), hfour, Record.read]
  by_cases hshort : data.size < c.place.toNat + Bytes.lengthSize
  · rw [if_pos (by omega)]
    simp only [if_pos hshort]
    rfl
  -- Four bytes are left, so the length is there, and the cursor stands behind it.
  have hmoved : (c.moveBy Bytes.lengthSize).place.toNat = c.place.toNat + Bytes.lengthSize :=
    Cursor.toNat_place_moveBy (by omega)
  rw [if_neg (by omega), run_bind (run_take hsize (by omega)), hfour,
    run_bind (run_liftM (readLength_extract (by omega)) _),
    run_bind (run_remaining hsize (by omega)), hmoved, toNat_ofNat (by omega), hlength]
  simp only [if_neg hshort]
  by_cases hcut :
      data.size - (c.place.toNat + Bytes.lengthSize) < Bytes.lengthAt data c.place.toNat
  · simp only [if_pos hcut]
    rw [toNat_ofNat (Bytes.lengthAt_lt _ _)]
    rfl
  · simp only [if_neg hcut]
    rw [run_bind (run_take hsize (by omega)), hmoved, hlength, Cursor.behind,
      ByteArray.size_extract, Nat.min_eq_left (by omega), Nat.add_sub_cancel_left]
    rfl

/-- A cursor outside the data stops the machine. -/
example : (readRecord ⟨#[1, 2]⟩).run ({ place := 3 } : Cursor 32) = .error .underflow := rfl

end Moves

end Word

/-! ## The lengths of the records that were passed -/

/-- The length of the payload that a step of a scan found, if it found one. -/
def ScanEvent.length? : ScanEvent → Option Nat
  | .found _ _ length => some length
  | _ => none

/-- The lengths of the payloads that the scan `s` found, in their order. -/
def Scan.lengths (s : Scan σ α) : List Nat :=
  s.events.filterMap ScanEvent.length?

@[simp] lemma Scan.lengths_map (f : α → β) (s : Scan σ α) : (s.map f).lengths = s.lengths := rfl

@[simp] lemma Scan.lengths_after (events : List ScanEvent) (s : Scan σ α) :
    (s.after events).lengths = events.filterMap ScanEvent.length? ++ s.lengths :=
  List.filterMap_append

/-- The two steps at a record find its `payload`. -/
private lemma ScanEvent.filterMap_length?_ofRecord (offset : Nat) (spec : PartitionSpec)
    (payload : ByteArray) : (ofRecord offset spec payload).filterMap length? = [payload.size] := by
  rw [ofRecord]
  split <;> rfl

namespace Record

/-- The number of bytes of the records of payloads with these `lengths`. -/
def extent : (lengths : List Nat) → Nat
  | [] => 0
  | length :: lengths => Bytes.lengthSize + length + extent lengths

/-- The places of a cursor on its way from `offset` past records of payloads with these `lengths`:
behind each length and behind each payload. -/
def stops : (offset : Nat) → (lengths : List Nat) → List Nat
  | _, [] => []
  | offset, length :: lengths =>
    (offset + Bytes.lengthSize) :: (offset + Bytes.lengthSize + length) ::
      stops (offset + Bytes.lengthSize + length) lengths

/-- The record of a `payload` that is read at `offset` ends inside the data. -/
private lemma add_le_of_read_eq_ok {data payload : ByteArray} {offset : Nat}
    (h : read data offset = .ok payload) : offset + Bytes.lengthSize + payload.size ≤ data.size :=
  (read_eq_ok_iff.1 h).2.1

/-- Each record of payloads with these `lengths` has a length of four bytes. -/
private lemma mul_length_le_extent (lengths : List Nat) :
    Bytes.lengthSize * lengths.length ≤ extent lengths := by
  induction lengths with
  | nil => exact Nat.le_refl 0
  | cons length lengths ih =>
    rw [extent, List.length_cons, Nat.mul_succ]
    omega

end Record

/-- **A scan that succeeds** has found one payload for each entry, and their records end with the
data.

**Proof sketch.** Induction on `specs`. A scan that succeeds is not refused, so
`scanFrom_cons_cases` gives the steps at the first record and the scan behind it. Where no entry is
left, the scan succeeds only at the end of the data. -/
theorem scanFrom_lengths_of_eq_ok {sink : Sink σ} {data : ByteArray} {declared index offset : Nat}
    {specs : List PartitionSpec} {state : σ} {outcomes : List Outcome}
    (h : (scanFrom sink data declared specs index offset state).result = .ok outcomes) :
    let lengths := (scanFrom sink data declared specs index offset state).lengths
    lengths.length = specs.length ∧ offset + Record.extent lengths = data.size := by
  induction specs generalizing index offset state outcomes with
  | nil =>
    rw [scanFrom, finishScan] at h ⊢
    cases hfinish : sink.finish state with
    | error e => rw [hfinish] at h; cases h
    | ok last =>
      simp only [hfinish] at h
      split at h
      · rename_i hend
        exact ⟨rfl, hend⟩
      · cases h
  | cons spec specs ih =>
    cases hread : Record.read data offset with
    | error fault =>
      rw [scanFrom, hread] at h
      cases h
    | ok payload =>
      rcases scanFrom_cons_cases sink declared index state spec specs hread with
        ⟨-, refused, spec', payload', e, -, hresult⟩ | ⟨next, hrun⟩
      · cases hresult.symm.trans h
      · rw [hrun, Scan.result_after, Scan.result_map] at h
        obtain ⟨later, hlater, -⟩ := map_eq_ok_iff.1 h
        obtain ⟨hlength, hend⟩ := ih hlater
        rw [hrun]
        simp only [Scan.lengths_after, Scan.lengths_map, ScanEvent.filterMap_length?_ofRecord,
          List.singleton_append, List.length_cons, hlength, Record.extent, true_and]
        omega

/-- The records that a scan has found end with the data if it succeeds, and there are at least four
bytes for each entry (`Record.mul_length_le_extent`). -/
private lemma scanRecords_lengths_of_eq_ok {sink : Sink σ} {data : ByteArray}
    {document : ManifestDocument} {offset : Nat} {state : σ} {report : ScanReport}
    (h : (scanRecords sink data document offset state).result = .ok report) :
    let lengths := (scanRecords sink data document offset state).lengths
    lengths.length = document.partitions.length ∧ offset + Record.extent lengths = data.size ∧
      offset + 4 * document.partitions.length ≤ data.size := by
  intro lengths
  obtain ⟨outcomes, houtcomes, -⟩ := map_eq_ok_iff.1 h
  obtain ⟨hlength, hend⟩ : lengths.length = document.partitions.length ∧
    offset + Record.extent lengths = data.size := scanFrom_lengths_of_eq_ok houtcomes
  have hfour : 4 * lengths.length ≤ Record.extent lengths := Record.mul_length_le_extent lengths
  exact ⟨hlength, hend, by omega⟩

/-! ## Runs on words -/

namespace Word

section Runs

variable {data payload : ByteArray} {c last : Cursor w} {lengths : List Nat}

/-- The cursor is moved past the records of payloads with some `lengths`, one after the other, and
perhaps past the length of a record whose payload is cut off. -/
inductive Cursor.Passes (data : ByteArray) : Cursor w → List Nat → Cursor w → Prop where
  | stop (c : Cursor w) : Passes data c [] c
  | cut {c : Cursor w} {length available : Nat}
      (read_eq : Record.read data c.place.toNat = .error (.truncated length available)) :
      Passes data c [] (c.moveBy Bytes.lengthSize)
  | record {c last : Cursor w} {payload : ByteArray} {lengths : List Nat}
      (read_eq : Record.read data c.place.toNat = .ok payload)
      (passes : Passes data (c.behind (.ok payload)) lengths last) :
      Passes data c (payload.size :: lengths) last

/-- Where there is no complete record the cursor `c` passes none. -/
private lemma Cursor.passes_behind_error {fault : Record.Fault}
    (h : Record.read data c.place.toNat = .error fault) :
    c.Passes data [] (c.behind (.error fault)) := by
  cases fault with
  | absent => exact .stop c
  | truncated length available => exact .cut h

/-- The cursor `c` behind a record stands as much further on as the record is long. -/
private lemma Cursor.toNat_place_behind (hsize : data.size < 2 ^ w)
    (h : Record.read data c.place.toNat = .ok payload) :
    (c.behind (.ok payload)).place.toNat = c.place.toNat + Bytes.lengthSize + payload.size := by
  have hend := Record.add_le_of_read_eq_ok h
  have hmoved : (c.moveBy Bytes.lengthSize).place.toNat = c.place.toNat + Bytes.lengthSize :=
    toNat_place_moveBy (by omega)
  rw [behind, toNat_place_moveBy (by omega), hmoved]

/-- The cursor `c` behind a record has taken two more places. -/
private lemma Cursor.trail_behind (hsize : data.size < 2 ^ w)
    (h : Record.read data c.place.toNat = .ok payload) :
    (c.behind (.ok payload)).trail = c.trail ++ [c.place.toNat + Bytes.lengthSize,
      c.place.toNat + Bytes.lengthSize + payload.size] := by
  have hend := Record.add_le_of_read_eq_ok h
  have hmoved : (c.moveBy Bytes.lengthSize).place.toNat = c.place.toNat + Bytes.lengthSize :=
    toNat_place_moveBy (by omega)
  rw [behind, trail_moveBy (by omega), trail_moveBy (by omega), hmoved, List.append_assoc]
  rfl

/-- **The places of a cursor** that passes records are behind the lengths and the payloads of all of
them, and in the end perhaps behind one length more.

**Proof sketch.** Induction on the way of the cursor. A record adds two places
(`Word.Cursor.trail_behind`), and the others start from behind it
(`Word.Cursor.toNat_place_behind`). A record that is cut off adds one at the end. -/
theorem Cursor.Passes.trail_eq (h : c.Passes data lengths last) (hsize : data.size < 2 ^ w) :
    ∃ more, last.trail = c.trail ++ (Record.stops c.place.toNat lengths ++ more) ∧
      (more = [] ∨ (∃ length available, Record.read data
          (c.place.toNat + Record.extent lengths) = .error (.truncated length available)) ∧
        more = [c.place.toNat + Record.extent lengths + Bytes.lengthSize]) := by
  induction h with
  | stop c => exact ⟨[], by simp [Record.stops], .inl rfl⟩
  | @cut c length available read_eq =>
    obtain ⟨hend, -⟩ := Record.read_eq_truncated_iff.1 read_eq
    exact ⟨_, trail_moveBy (by omega), .inr ⟨⟨length, available, read_eq⟩, rfl⟩⟩
  | @record c last payload lengths read_eq passes ih =>
    obtain ⟨more, htrail, hmore⟩ := ih
    rw [toNat_place_behind hsize read_eq] at htrail hmore
    refine ⟨more, ?_, ?_⟩
    · rw [htrail, trail_behind hsize read_eq, Record.stops]
      simp only [List.append_assoc, List.cons_append, List.nil_append]
    · rwa [Record.extent, ← Nat.add_assoc, ← Nat.add_assoc]

/-- **The bounds of a cursor** that passes records: each place `p` that it takes is neither before
its first one nor past the end.

**Proof sketch.** Induction on the way of the cursor. A record that is read ends inside the data
(`Record.add_le_of_read_eq_ok`), and so does the length of one that is cut off. -/
theorem Cursor.Passes.mem_trail (h : c.Passes data lengths last) (hsize : data.size < 2 ^ w)
    {p : Nat} (hp : p ∈ last.trail) : p ∈ c.trail ∨ c.place.toNat ≤ p ∧ p ≤ data.size := by
  induction h with
  | stop c => exact .inl hp
  | @cut c length available read_eq =>
    obtain ⟨hend, -⟩ := Record.read_eq_truncated_iff.1 read_eq
    rw [trail_moveBy (by omega), List.mem_append, List.mem_singleton] at hp
    exact hp.imp_right fun hmoved => by omega
  | @record c last payload lengths read_eq passes ih =>
    have hend := Record.add_le_of_read_eq_ok read_eq
    rcases ih hp with hbefore | ⟨hle, hinside⟩
    · rw [trail_behind hsize read_eq, List.mem_append] at hbefore
      simp only [List.mem_cons, List.not_mem_nil, or_false] at hbefore
      exact hbefore.imp_right fun hmoved => by omega
    · rw [toNat_place_behind hsize read_eq] at hle
      exact .inr ⟨by omega, hinside⟩

/-- **The records from a cursor on.** With a cursor `c` inside the data a machine is not stopped and
finds what is found on natural numbers, and the cursor passes the records that are found.

**Proof sketch.** Induction on `specs`. The record at the cursor is read without a stop
(`Word.run_readRecord`), and behind it the cursor is still inside the data
(`Word.Cursor.toNat_place_behind`). -/
theorem run_scanFrom (hw : 32 ≤ w) (hsize : data.size < 2 ^ w) (sink : Sink σ) (declared : Nat)
    (specs : List PartitionSpec) (index : Nat) (state : σ) (hc : c.place.toNat ≤ data.size) :
    let run := FirmwareBundle.scanFrom sink data declared specs index c.place.toNat state
    ∃ last, (scanFrom sink data declared specs index state).run c = .ok (run, last) ∧
      c.Passes data run.lengths last := by
  induction specs generalizing c index state with
  | nil =>
    refine ⟨c, ?_, ?_⟩
    · rw [scanFrom, run_bind (run_place c)]
      rfl
    · rw [FirmwareBundle.scanFrom, finishScan]
      cases sink.finish state <;> exact .stop c
  | cons spec specs ih =>
    rw [scanFrom, run_bind (run_place c), run_bind (run_readRecord hw hsize hc),
      FirmwareBundle.scanFrom]
    cases hread : Record.read data c.place.toNat with
    | error fault => exact ⟨_, rfl, Cursor.passes_behind_error hread⟩
    | ok payload =>
      have hplace := Cursor.toNat_place_behind hsize hread
      have hinside := Record.add_le_of_read_eq_ok hread
      -- Behind the record the cursor is still inside the data, whatever state the sink is in.
      have hrest := fun next => ih (c := c.behind (.ok payload)) (index + 1) next (by omega)
      rw [hplace] at hrest
      simp only
      by_cases hok : (Outcome.classify spec payload).isOk
      · simp only [hok, ↓reduceIte]
        cases haccept : sink.accept state spec payload with
        | error e => exact ⟨_, rfl, .record hread (.stop _)⟩
        | ok next =>
          obtain ⟨last, hrun, hpasses⟩ := hrest next
          exact ⟨last, by rw [run_bind hrun]; rfl, .record hread hpasses⟩
      · simp only [hok]
        obtain ⟨last, hrun, hpasses⟩ := hrest state
        exact ⟨last, by rw [if_neg (by simp), run_bind hrun]; rfl, .record hread hpasses⟩

/-- The records of a bundle from the cursor `c` on. -/
private lemma run_scanRecords (hw : 32 ≤ w) (hsize : data.size < 2 ^ w) (sink : Sink σ)
    (document : ManifestDocument) (state : σ) (hc : c.place.toNat ≤ data.size) :
    let run := FirmwareBundle.scanRecords sink data document c.place.toNat state
    ∃ last, (scanRecords sink data document state).run c = .ok (run, last) ∧
      c.Passes data run.lengths last := by
  obtain ⟨last, hrun, hpasses⟩ := run_scanFrom hw hsize sink document.partitions.length
    document.partitions 0 state hc
  exact ⟨last, by rw [scanRecords, run_bind hrun]; rfl, hpasses⟩

/-- The records of a bundle from `offset` on, and the places of the `cursor`.

**Proof sketch.** A cursor at `offset` has this one place, which is a word without loss. It passes
the records that are found (`Word.run_scanRecords`), so `Word.Cursor.Passes.mem_trail` and
`Word.Cursor.Passes.trail_eq` say where it stood. -/
private lemma run_scanRecords_ofNat (hw : 32 ≤ w) (hsize : data.size < 2 ^ w) (sink : Sink σ)
    (document : ManifestDocument) {offset : Nat} (state : σ) (ho : offset ≤ data.size) :
    let run := FirmwareBundle.scanRecords sink data document offset state
    ∃ cursor : Cursor w, (scanRecords sink data document state).run
          { place := BitVec.ofNat w offset } = .ok (run, cursor) ∧
      (∀ place ∈ cursor.trail, offset ≤ place ∧ place ≤ data.size) ∧
      ∃ more, cursor.trail = offset :: (Record.stops offset run.lengths ++ more) ∧
        (more = [] ∨ (∃ length available, Record.read data
            (offset + Record.extent run.lengths) = .error (.truncated length available)) ∧
          more = [offset + Record.extent run.lengths + Bytes.lengthSize]) := by
  intro run
  have hplace : (BitVec.ofNat w offset).toNat = offset := toNat_ofNat (by omega)
  have hstart : Cursor.trail { place := BitVec.ofNat w offset } = [offset] :=
    congrArg (fun place => [place]) hplace
  obtain ⟨cursor, hrun, hpasses⟩ := run_scanRecords (c := { place := BitVec.ofNat w offset }) hw
    hsize sink document state (by rwa [hplace])
  simp only [hplace] at hrun hpasses
  refine ⟨cursor, hrun, fun place hmem => ?_, ?_⟩
  · rcases hpasses.mem_trail hsize hmem with hfirst | hbounds
    · rw [hstart, List.mem_singleton] at hfirst
      exact ⟨Nat.le_of_eq hfirst.symm, hfirst ▸ ho⟩
    · rwa [hplace] at hbounds
  · obtain ⟨more, htrail, hmore⟩ := hpasses.trail_eq hsize
    rw [hplace, hstart] at htrail
    rw [hplace] at hmore
    exact ⟨more, htrail, hmore⟩

/-- **The header of a bundle** is read without a stop: its zero byte is inside `data`, so its length
and the place behind it fit in a word. -/
theorem readManifest_eq_ok (hsize : data.size < 2 ^ w) :
    readManifest w data =
      .ok ((FirmwareBundle.readManifest data).map (Prod.map id (BitVec.ofNat w))) := by
  rw [readManifest, FirmwareBundle.readManifest]
  cases hzero : Bytes.firstZero data with
  | none => rfl
  | some i =>
    obtain ⟨⟨hi, -⟩, -⟩ := Bytes.firstZero_eq_some_iff.1 hzero
    have hlength : (BitVec.ofNat w i).toNat = i := toNat_ofNat (by omega)
    have hone : (1#w).toNat = 1 := toNat_ofNat (by omega)
    have hslice : slice data 0#w (BitVec.ofNat w i) = .ok (data.extract 0 i) := by
      rw [slice_eq_ok (by simp) (by omega), hlength, BitVec.toNat_zero]
    have hadd : add (BitVec.ofNat w i) 1#w = .ok (BitVec.ofNat w (i + 1)) := by
      rw [add_eq_ok (by omega), BitVec.ofNat_add]
    simp only [hslice, hadd, bind, Except.bind]
    cases ManifestDocument.ofText (data.extract 0 i) <;> rfl

end Runs

/-- **The reader on words** is stopped by no `data` that fit in the memory of its machine, and finds
what the reader on natural numbers finds.

**Proof sketch.** The header is read without a stop (`Word.readManifest_eq_ok`). The records start
inside the data, so they are read without a stop, too (`Word.run_scanRecords_ofNat`). -/
theorem scan_eq_ok (hw : 32 ≤ w) {data : ByteArray} (hsize : data.size < 2 ^ w) (sink : Sink σ)
    (state : σ) : scan w sink data state = .ok (FirmwareBundle.scan sink data state) := by
  rw [scan, readManifest_eq_ok hsize, FirmwareBundle.scan]
  cases hmanifest : FirmwareBundle.readManifest data with
  | error e => rfl
  | ok found =>
    obtain ⟨document, offset⟩ := found
    obtain ⟨i, hzero, -, hoffset⟩ := readManifest_eq_ok_iff.1 hmanifest
    obtain ⟨⟨hi, -⟩, -⟩ := Bytes.firstZero_eq_some_iff.1 hzero
    obtain ⟨cursor, hrun, -⟩ := run_scanRecords_ofNat hw hsize sink document state
      (by omega : offset ≤ data.size)
    simp only [Except.map, Prod.map, id, bind, Except.bind, hrun]
    rfl

end Word

/-! ## The cursor stays inside the data -/

/-- **The cursor stays inside the data.** The records of a bundle begin behind its first zero byte.
From there on, or from any other `offset` inside the data, a scan that succeeds has found one record
for each entry up to the end, so there are four bytes for each entry. A machine whose words have at
least 32 bits, and that holds `data` in its memory, reads header and records without being stopped,
whatever lengths stand in them, and finds the same. Its `cursor` goes neither back nor past the end:
it stands behind each length and each payload of the records that are found, and at last perhaps
behind the length of one that is cut off.

**Proof sketch.** The first part is `readManifest_eq_ok_iff`, the second
`scanRecords_lengths_of_eq_ok`. For the third, header and records are read without a stop
(`Word.readManifest_eq_ok`, `Word.run_scanFrom`), and the places of the cursor are those of
`Word.Cursor.Passes.trail_eq`, within the bounds of `Word.Cursor.Passes.mem_trail`. -/
theorem cursor_inside_data (data : ByteArray) :
    (∀ document offset, readManifest data = .ok (document, offset) →
      1 ≤ offset ∧ offset ≤ data.size ∧ ∃ i, offset = i + 1 ∧
        (∃ h : i < data.size, data[i] = 0) ∧ ∀ j (h : j < data.size), j < i → data[j] ≠ 0) ∧
    (∀ {σ : Type} (sink : Sink σ) (document : ManifestDocument) (offset : Nat) (state : σ),
      let run := scanRecords sink data document offset state
      ∀ report, run.result = .ok report →
        run.lengths.length = document.partitions.length ∧
        offset + Record.extent run.lengths = data.size ∧
        offset + 4 * document.partitions.length ≤ data.size) ∧
    ∀ w, 32 ≤ w → data.size < 2 ^ w →
      Word.readManifest w data = .ok ((readManifest data).map (Prod.map id (BitVec.ofNat w))) ∧
      ∀ {σ : Type} (sink : Sink σ) (document : ManifestDocument) (offset : Nat) (state : σ),
        offset ≤ data.size →
        let run := scanRecords sink data document offset state
        ∃ cursor : Word.Cursor w, (Word.scanRecords sink data document state).run
              { place := BitVec.ofNat w offset } = .ok (run, cursor) ∧
          (∀ place ∈ cursor.trail, offset ≤ place ∧ place ≤ data.size) ∧
          ∃ more, cursor.trail = offset :: (Record.stops offset run.lengths ++ more) ∧
            (more = [] ∨ (∃ length available, Record.read data
                (offset + Record.extent run.lengths) = .error (.truncated length available)) ∧
              more = [offset + Record.extent run.lengths + Bytes.lengthSize]) := by
  refine ⟨fun document offset hmanifest => ?_, ?_, fun w hw hsize => ⟨?_, ?_⟩⟩
  · obtain ⟨i, hzero, -, rfl⟩ := readManifest_eq_ok_iff.1 hmanifest
    obtain ⟨⟨hi, hnul⟩, hbefore⟩ := Bytes.firstZero_eq_some_iff.1 hzero
    exact ⟨Nat.le_add_left 1 i, hi, i, rfl, ⟨hi, hnul⟩, hbefore⟩
  · intro σ sink document offset state run report hok
    exact scanRecords_lengths_of_eq_ok hok
  · exact Word.readManifest_eq_ok hsize
  · intro σ sink document offset state ho
    exact Word.run_scanRecords_ofNat hw hsize sink document state ho

/-- The longest length that can be written, in words that are no longer, where one byte follows; and
the same table where the records are complete. -/
theorem cursor_inside_data_longest_length :
    let text := "partitions: [{name: a, size: 2}, {name: b, size: 9}]".toUTF8
    let front := text ++ (⟨#[0]⟩ ++ Record.encode ⟨#[7, 0]⟩)
    let cut := front ++ ⟨#[0xff, 0xff, 0xff, 0xff, 1]⟩
    let whole := front ++ Record.encode ⟨#[1]⟩
    let document := ManifestDocument.bundle
      { BootParameters.unstated with partitions := [⟨"a", 2, none, none⟩, ⟨"b", 9, none, none⟩] }
    let offset := text.size + 1
    32 ≤ 32 ∧ cut.size < 2 ^ 32 ∧ readManifest cut = .ok (document, offset) ∧ offset ≤ cut.size ∧
      Record.read cut (offset + 6) = .error (.truncated (2 ^ 32 - 1) 1) ∧
      (∃ cursor, (Word.scanRecords Sink.discard cut document ()).run
            { place := BitVec.ofNat 32 offset } =
          .ok (scanRecords Sink.discard cut document offset (), cursor) ∧
        ∀ place ∈ cursor.trail, offset ≤ place ∧ place ≤ cut.size) ∧
      (∃ report, (scanRecords Sink.discard whole document offset ()).result = .ok report) ∧
      offset + 4 * 2 ≤ whole.size := by
  intro text front cut whole document offset
  have hcut : cut.size < 2 ^ 32 := by decide +kernel
  have hread : ManifestDocument.ofText text = .ok document := by
    rw [← toOption_eq_some_iff]
    decide +kernel
  have hmanifest : readManifest cut = .ok (document, offset) := by
    have happend := readManifest_append (by decide +kernel) hread
      (Record.encode ⟨#[7, 0]⟩ ++ ⟨#[0xff, 0xff, 0xff, 0xff, 1]⟩)
    rwa [← ByteArray.append_assoc, ← ByteArray.append_assoc] at happend
  obtain ⟨hheader, -, hwords⟩ := cursor_inside_data cut
  obtain ⟨-, hoffset, -⟩ := hheader document offset hmanifest
  obtain ⟨cursor, hrun, hbounds, -⟩ := (hwords 32 (Nat.le_refl 32) hcut).2 Sink.discard document
    offset () hoffset
  have hoffset' : offset ≤ whole.size := by decide +kernel
  have hlength : [(⟨#[7, 0]⟩ : ByteArray), ⟨#[1]⟩].length = document.partitions.length := rfl
  have htiles : Record.Tiles whole offset [⟨#[7, 0]⟩, ⟨#[1]⟩] .empty :=
    ⟨by decide, by decide +kernel⟩
  have hok := scanRecords_of_tiles Sink.discard_neverFails hoffset' hlength htiles ()
  obtain ⟨-, -, hfour⟩ := (cursor_inside_data whole).2.1 Sink.discard document offset () _ hok
  exact ⟨Nat.le_refl 32, hcut, hmanifest, hoffset, by decide +kernel, ⟨cursor, hrun, hbounds⟩,
    ⟨_, hok⟩, hfour⟩

end FirmwareBundle
