import FirmwareBundle.Bundle.Record
import FirmwareBundle.Proofs.Bytes
/-!
# Records laid end to end

Behind the header a bundle is a row of records and perhaps a rest. The row is determined by its
bytes: reading records one after the other finds the same payloads as any other way of cutting the
bytes into complete records.

## Main definitions

* `FirmwareBundle.Record.encodeAll` — the records of payloads, one behind the other.
* `FirmwareBundle.Record.Tiles` — complete records of some payloads stand at an offset.
* `FirmwareBundle.Record.Longest` — as many of them as there are, up to a limit.

## Main results

* `FirmwareBundle.Record.tiles_cons` — the first record of a row is the one that is read.
* `FirmwareBundle.Record.Tiles.eq_of_length_eq` — rows of the same length hold the same payloads.
* `FirmwareBundle.Record.exists_longest` — there is a longest row.
* `FirmwareBundle.Record.Longest.fault` — behind a row that could be longer no record can be read.
-/

namespace FirmwareBundle.Record

variable {data tail : ByteArray} {offset : Nat} {payload : ByteArray} {payloads : List ByteArray}

/-! ## One record -/

/-- A record is longer than its `payload` by the `Bytes.lengthSize` bytes of its length word. -/
@[simp] lemma size_encode (payload : ByteArray) :
    (encode payload).size = Bytes.lengthSize + payload.size := by
  rw [encode, ByteArray.size_append, Bytes.size_ofLength]

/-- **A record is read** at `offset` if and only if its bytes stand there: `payload` has fewer than
`2 ^ 32` bytes, and the bytes of `data` from `offset` on, all of them inside `data`, are
`encode payload`.

**Proof sketch.** What is read is the length `n` at `offset` and the `n` bytes behind it. These are
the bytes of `encode payload` if and only if `n = payload.size` (`Bytes.lengthAt_eq_iff`) and the
rest is `payload`. -/
theorem read_eq_ok_iff : read data offset = .ok payload ↔
    payload.size < 2 ^ 32 ∧ offset + Bytes.lengthSize + payload.size ≤ data.size ∧
      data.extract offset (offset + Bytes.lengthSize + payload.size) = encode payload := by
  have hlt := Bytes.lengthAt_lt data offset
  constructor
  · intro h
    simp only [read] at h
    split at h
    · cases h
    split at h
    · cases h
    rename_i hstart hlen
    obtain rfl := Except.ok.inj h
    have hsize : (data.extract (offset + Bytes.lengthSize)
        (offset + Bytes.lengthSize + Bytes.lengthAt data offset)).size =
        Bytes.lengthAt data offset := by
      rw [ByteArray.size_extract]; omega
    rw [hsize, encode, hsize, Bytes.ofLength_lengthAt (by omega)]
    exact ⟨hlt, by omega,
      ByteArray.extract_eq_extract_append_extract _ (Nat.le_add_right _ _) (Nat.le_add_right _ _)⟩
  · rintro ⟨hshort, hle, hbytes⟩
    rw [encode, ByteArray.extract_eq_extract_append_extract (offset + Bytes.lengthSize)
      (Nat.le_add_right _ _) (Nat.le_add_right _ _)] at hbytes
    obtain ⟨hword, hpayload⟩ :=
      (ByteArray.append_eq_append_iff_of_size_eq_left
        (by rw [ByteArray.size_extract, Bytes.size_ofLength]; omega)).1 hbytes
    have hlen := (Bytes.lengthAt_eq_iff hshort (by omega)).2 hword
    simp only [read, hlen]
    rw [if_neg (by omega), if_neg (by omega), hpayload]

/-- There is no record at `offset` if fewer than `Bytes.lengthSize` bytes of `data` are left
there. -/
lemma read_eq_absent_iff :
    read data offset = .error .absent ↔ data.size < offset + Bytes.lengthSize := by
  simp only [read]
  split
  · simpa
  · split <;> simp <;> omega

/-- A record is cut off if `length`, as its word says, exceeds the number `available` of the bytes
that are left behind that word.

**Proof sketch.** The length word is complete, so `Bytes.lengthAt_eq_iff` turns the length that is
read into the four bytes that stand there. The bytes behind it are `available` if and only if word
and bytes end with `data`. -/
lemma read_eq_truncated_iff {length available : Nat} :
    read data offset = .error (.truncated length available) ↔
      offset + Bytes.lengthSize + available = data.size ∧ available < length ∧
        length < 2 ^ 32 ∧
        data.extract offset (offset + Bytes.lengthSize) = Bytes.ofLength length := by
  have hlt := Bytes.lengthAt_lt data offset
  simp only [read]
  split
  · simp only [Except.error.injEq, reduceCtorEq, false_iff]
    omega
  · rename_i hstart
    split
    · simp only [Except.error.injEq, Fault.truncated.injEq]
      constructor
      · rintro ⟨rfl, rfl⟩
        exact ⟨by omega, by omega, hlt, (Bytes.ofLength_lengthAt (by omega)).symm⟩
      · rintro ⟨hsize, -, hshort, hword⟩
        exact ⟨(Bytes.lengthAt_eq_iff hshort (by omega)).2 hword, by omega⟩
    · simp only [reduceCtorEq, false_iff]
      rintro ⟨hsize, hcut, hshort, hword⟩
      have hlen := (Bytes.lengthAt_eq_iff hshort (by omega)).2 hword
      omega

/-! ## Rows of records -/

/-- The records of `payloads`, one behind the other. -/
def encodeAll : List ByteArray → ByteArray
  | [] => .empty
  | payload :: payloads => encode payload ++ encodeAll payloads

/-- The records of `front ++ back` are those of `front` with those of `back` behind them. -/
lemma encodeAll_append (front back : List ByteArray) :
    encodeAll (front ++ back) = encodeAll front ++ encodeAll back := by
  induction front with
  | nil => simp [encodeAll]
  | cons payload front ih => rw [List.cons_append, encodeAll, encodeAll, ih, ByteArray.append_assoc]

/-- Complete records of `payloads` stand in `data` at `offset`, one behind the other, and `tail` is
what follows them. -/
structure Tiles (data : ByteArray) (offset : Nat) (payloads : List ByteArray)
    (tail : ByteArray) : Prop where
  short : ∀ payload ∈ payloads, payload.size < 2 ^ 32
  bytes : data.extract offset data.size = encodeAll payloads ++ tail

/-- The row without records stands at every `offset`, and its `tail` is all of `data` from there
on. -/
lemma tiles_nil : Tiles data offset [] tail ↔ data.extract offset data.size = tail := by
  constructor
  · rintro ⟨-, h⟩
    simpa [encodeAll] using h
  · intro h
    exact ⟨by simp, by simpa [encodeAll] using h⟩

/-- The records of `payloads` stand at `before.size` in what has the bytes `before` in front of
them. -/
lemma tiles_append_left (before : ByteArray)
    (hshort : ∀ payload ∈ payloads, payload.size < 2 ^ 32) :
    Tiles (before ++ (encodeAll payloads ++ tail)) before.size payloads tail :=
  ⟨hshort, ByteArray.extract_append_eq_right rfl ByteArray.size_append⟩

/-- A row at an `offset` inside `data` splits `data` into the bytes before it, which are `offset`
many, its records, and its `tail`. -/
lemma Tiles.exists_eq_append (h : Tiles data offset payloads tail) (ho : offset ≤ data.size) :
    ∃ before, before.size = offset ∧ data = before ++ (encodeAll payloads ++ tail) := by
  refine ⟨data.extract 0 offset, by rw [ByteArray.size_extract]; omega, ?_⟩
  rw [← h.bytes, ← ByteArray.extract_eq_extract_append_extract offset (Nat.zero_le _) ho,
    ByteArray.extract_zero_size]

/-- A row and its `tail` fill `data` from `offset` on, so their sizes add up to that of `data`. -/
lemma Tiles.size_eq (h : Tiles data offset payloads tail) (ho : offset ≤ data.size) :
    offset + (encodeAll payloads).size + tail.size = data.size := by
  have hs := congrArg ByteArray.size h.bytes
  rw [ByteArray.size_extract, ByteArray.size_append] at hs
  omega

/-- **The first record of a row** is the one that is read at `offset`, and the rest of the row
stands behind it.

**Proof sketch.** By `read_eq_ok_iff` the first record is read if and only if the bytes of
`encode payload` stand at `offset`. What is left of `data` behind them is the rest of the row with
`tail`, and the other way round. -/
theorem tiles_cons : Tiles data offset (payload :: payloads) tail ↔
    read data offset = .ok payload ∧
      Tiles data (offset + Bytes.lengthSize + payload.size) payloads tail := by
  rw [read_eq_ok_iff]
  constructor
  · rintro ⟨hshort, hbytes⟩
    rw [encodeAll, ByteArray.append_assoc] at hbytes
    have hsize := congrArg ByteArray.size hbytes
    rw [ByteArray.size_extract, ByteArray.size_append, size_encode] at hsize
    have hle : offset + Bytes.lengthSize + payload.size ≤ data.size := by
      have : 0 < Bytes.lengthSize := by decide
      omega
    rw [ByteArray.extract_eq_extract_append_extract (offset + Bytes.lengthSize + payload.size)
      (by omega) hle] at hbytes
    obtain ⟨hfirst, hrest⟩ :=
      (ByteArray.append_eq_append_iff_of_size_eq_left
        (by rw [ByteArray.size_extract, size_encode]; omega)).1 hbytes
    exact ⟨⟨hshort payload List.mem_cons_self, hle, hfirst⟩,
      ⟨fun p hp => hshort p (List.mem_cons_of_mem payload hp), hrest⟩⟩
  · rintro ⟨⟨hshort, hle, hfirst⟩, hrest⟩
    refine ⟨fun p hp => ?_, ?_⟩
    · rcases List.mem_cons.1 hp with rfl | hp
      · exact hshort
      · exact hrest.short p hp
    · rw [ByteArray.extract_eq_extract_append_extract (offset + Bytes.lengthSize + payload.size)
        (by omega) hle, hfirst, hrest.bytes, encodeAll, ByteArray.append_assoc]

/-- A row of `front ++ back` is a row of `front` with some rest, and a row of `back` behind its
records. Induction on `front` with `tiles_cons`. -/
lemma tiles_append {front back : List ByteArray} : Tiles data offset (front ++ back) tail ↔
    (∃ middle, Tiles data offset front middle) ∧
      Tiles data (offset + (encodeAll front).size) back tail := by
  induction front generalizing offset with
  | nil => simp [tiles_nil, encodeAll]
  | cons payload front ih =>
    rw [List.cons_append, tiles_cons, ih, encodeAll, ByteArray.size_append, size_encode]
    simp only [tiles_cons, exists_and_left, and_assoc, Nat.add_assoc]

/-- Of two rows at one `offset` the shorter is the beginning of the longer: `payloads` are the first
`payloads.length` of `others`.

**Proof sketch.** Induction on `payloads`. Both rows start with the record that is read at `offset`
(`tiles_cons`), so they agree in their first payload, and their rests stand behind the same
record. -/
lemma Tiles.eq_take {others : List ByteArray} {rest : ByteArray}
    (h : Tiles data offset payloads tail) (h' : Tiles data offset others rest)
    (hle : payloads.length ≤ others.length) : payloads = others.take payloads.length := by
  induction payloads generalizing offset others with
  | nil => rfl
  | cons payload payloads ih =>
    cases others with
    | nil => simp at hle
    | cons other others =>
      obtain ⟨hread, htiles⟩ := tiles_cons.1 h
      obtain ⟨hread', htiles'⟩ := tiles_cons.1 h'
      obtain rfl : payload = other := Except.ok.inj (hread.symm.trans hread')
      rw [List.length_cons, List.take_succ_cons,
        ← ih htiles htiles' (by simpa using hle)]

/-- **Rows are unique.** Rows of the same length at one `offset` hold the same payloads, whatever
follows them: each is the beginning of the other (`Tiles.eq_take`). -/
theorem Tiles.eq_of_length_eq {others : List ByteArray} {rest : ByteArray}
    (h : Tiles data offset payloads tail) (h' : Tiles data offset others rest)
    (hlen : payloads.length = others.length) : payloads = others := by
  rw [h.eq_take h' (Nat.le_of_eq hlen), hlen, List.take_length]

/-! ## Longest rows -/

/-- The longest row at `offset` of at most `limit` records: `payloads` are a row there, and no row
within the limit has more records. -/
structure Longest (data : ByteArray) (offset limit : Nat) (payloads : List ByteArray) : Prop where
  tiles : ∃ tail, Tiles data offset payloads tail
  length_le : payloads.length ≤ limit
  longest : ∀ others rest, Tiles data offset others rest → others.length ≤ limit →
    others.length ≤ payloads.length

/-- Where no record can be read at `offset`, the row without records is the longest, for any
`limit`. -/
lemma longest_nil {fault : Fault} (hread : read data offset = .error fault) (limit : Nat) :
    Longest data offset limit [] := by
  refine ⟨⟨_, tiles_nil.2 rfl⟩, Nat.zero_le limit, fun others rest h _ => ?_⟩
  cases others with
  | nil => exact Nat.le_refl 0
  | cons other others => rw [(tiles_cons.1 h).1] at hread; cases hread

/-- There is a longest row of at most `limit` records at every `offset`.

**Proof sketch.** Induction on `limit`. Where no record can be read the empty row is the longest
(`longest_nil`); otherwise the record that is read goes before the longest row behind it
(`tiles_cons`). -/
theorem exists_longest (data : ByteArray) (offset limit : Nat) :
    ∃ payloads, Longest data offset limit payloads := by
  induction limit generalizing offset with
  | zero => exact ⟨[], ⟨_, tiles_nil.2 rfl⟩, Nat.le_refl 0, fun _ _ _ h => h⟩
  | succ limit ih =>
    cases hread : read data offset with
    | error fault => exact ⟨[], longest_nil hread (limit + 1)⟩
    | ok payload =>
      obtain ⟨payloads, ⟨tail, htiles⟩, hle, hmax⟩ :=
        ih (offset + Bytes.lengthSize + payload.size)
      refine ⟨payload :: payloads, ⟨tail, tiles_cons.2 ⟨hread, htiles⟩⟩, by simpa using hle,
        fun others rest h hlen => ?_⟩
      cases others with
      | nil => exact Nat.zero_le _
      | cons other others =>
        obtain ⟨hread', htiles'⟩ := tiles_cons.1 h
        obtain rfl : payload = other := Except.ok.inj (hread.symm.trans hread')
        have := hmax others rest htiles' (by simpa using hlen)
        simpa using this

/-- The longest row is unique: two of them have the same length, since neither is longer than the
other, and rows of one length are equal (`Tiles.eq_of_length_eq`). -/
lemma Longest.unique {limit : Nat} {others : List ByteArray}
    (h : Longest data offset limit payloads) (h' : Longest data offset limit others) :
    payloads = others := by
  obtain ⟨tail, ht⟩ := h.tiles
  obtain ⟨rest, ht'⟩ := h'.tiles
  exact ht.eq_of_length_eq ht'
    (Nat.le_antisymm (h'.longest _ _ ht h.length_le) (h.longest _ _ ht' h'.length_le))

/-- Behind a longest row of fewer than `limit` records no record can be read: with one more record
it would still be a row within `limit` (`tiles_append`), and a longer one. -/
theorem Longest.fault {limit : Nat} (h : Longest data offset limit payloads)
    (hlt : payloads.length < limit) :
    ∃ fault, read data (offset + (encodeAll payloads).size) = .error fault := by
  cases hread : read data (offset + (encodeAll payloads).size) with
  | error fault => exact ⟨fault, rfl⟩
  | ok payload =>
    -- The record that is read would make the row longer.
    have hmore := tiles_append.2 ⟨h.tiles, tiles_cons.2 ⟨hread, tiles_nil.2 rfl⟩⟩
    have hle := h.longest _ _ hmore (by rw [List.length_append]; exact hlt)
    rw [List.length_append, List.length_singleton] at hle
    omega

end FirmwareBundle.Record
