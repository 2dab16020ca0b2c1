import FirmwareBundle.Bundle.Writer
import FirmwareBundle.Proofs.PrefixFree
import Mathlib.Algebra.GroupWithZero.Nat
/-!
# What a stream receives of a bundle

However a writer cuts up what it is handed, it receives the bundle from its first byte on, without
gaps. It has received all of it if no part is refused, and less otherwise. So a writer that takes a
number of bytes and then fails has received that many bytes of the bundle, or the whole of it.

## Main definitions

* `FirmwareBundle.Writer.Refuses` — a writer does not take the bytes that it is handed.
* `FirmwareBundle.Writer.Keeps` — an invariant of a writer and of the number of bytes it has taken.
* `FirmwareBundle.Writer.TakesAll`, `FirmwareBundle.Writer.StopsAt` — how the handing over of bytes
  ends.
* `FirmwareBundle.Writer.Limited` — a writer that takes so many bytes in all.

## Main results

* `FirmwareBundle.Writer.writeAll_cases`, `FirmwareBundle.Writer.writeParts_cases` — what a writer
  has received of a part, and of all of them.
* `FirmwareBundle.Bundle.streamTo_cases` — what any writer has received of a bundle.
* `FirmwareBundle.Bundle.streamTo_limited_cases` — what the writer with so much room has received.
* `FirmwareBundle.Bundle.streamTo_limited` — what a writer with a limit has received.
-/

namespace FirmwareBundle

namespace Writer

variable {σ : Type}

/-! ## How the handing over of bytes ends -/

/-- The writer `w` refuses the bytes `pending` for a `cause`: it fails, or it takes none of them. -/
def Refuses (w : Writer σ) (state : σ) (pending : ByteArray) (cause : IoFault) (after : σ) : Prop :=
  w.take state pending = .error cause ∧ after = state ∨
    w.take state pending = .ok (0, after) ∧ cause = nothingTaken

/-- The writer `w` keeps the invariant `inv` of the number of bytes that it has taken and of its
state. -/
def Keeps (w : Writer σ) (inv : Nat → σ → Prop) : Prop :=
  ∀ ⦃total state data count next⦄, inv total state → w.take state data = .ok (count, next) →
    inv (total + count) next

/-- All bytes of `data` have been taken between the streams `before` and `after`, and the invariant
`inv` holds at the end. -/
structure TakesAll (inv : Nat → σ → Prop) (before : Stream σ) (data : ByteArray)
    (after : Stream σ) : Prop where
  received_eq : after.received = before.received ++ data
  inv : inv after.received.size after.state

/-- The bytes of `data` have been taken up to some, `pending`, that were refused: they were `asked`
for in a state in which the invariant `inv` holds, and `rest` is behind them. -/
def StopsAt (w : Writer σ) (inv : Nat → σ → Prop) (before : Stream σ) (data : ByteArray)
    (after : Stream σ) (cause : IoFault) : Prop :=
  ∃ asked pending rest, before.received ++ data = after.received ++ (pending ++ rest) ∧
    0 < pending.size ∧ inv after.received.size asked ∧ w.Refuses asked pending cause after.state

section Steps

variable {w : Writer σ} {inv : Nat → σ → Prop} {before between after : Stream σ}
  {data more : ByteArray} {cause : IoFault}

/-- The bytes of `data ++ more` have been taken if `data` was taken and then `more`. -/
lemma TakesAll.append (h : TakesAll inv before data between)
    (hmore : TakesAll inv between more after) : TakesAll inv before (data ++ more) after where
  received_eq := by rw [hmore.received_eq, h.received_eq, ByteArray.append_assoc]
  inv := hmore.inv

/-- The bytes of `data ++ more` have been taken in part if `data` was taken and then a part of
`more`. -/
private lemma TakesAll.stopsAt (h : TakesAll inv before data between)
    (hmore : w.StopsAt inv between more after cause) :
    w.StopsAt inv before (data ++ more) after cause := by
  obtain ⟨asked, pending, rest, hreceived, hrefused⟩ := hmore
  rw [h.received_eq, ByteArray.append_assoc] at hreceived
  exact ⟨asked, pending, rest, hreceived, hrefused⟩

/-- The bytes of `data ++ more` have been taken in part if a part of `data` was. -/
lemma StopsAt.append (h : w.StopsAt inv before data after cause) (more : ByteArray) :
    w.StopsAt inv before (data ++ more) after cause := by
  obtain ⟨asked, pending, rest, hreceived, hrefused⟩ := h
  refine ⟨asked, pending, rest ++ more, ?_, hrefused⟩
  rw [← ByteArray.append_assoc, hreceived]
  simp only [ByteArray.append_assoc]

/-- The bytes of `data` have been taken in part if they are refused from the first one on. -/
private lemma stopsAt_of_refuses (hne : data.size ≠ 0)
    (hinv : inv before.received.size before.state) {next : σ}
    (h : w.Refuses before.state data cause next) :
    w.StopsAt inv before data ⟨next, before.received⟩ cause :=
  ⟨before.state, data, .empty, by rw [ByteArray.append_empty], Nat.pos_of_ne_zero hne, hinv, h⟩

end Steps

/-! ## Parts that are handed over -/

section Runs

variable {w : Writer σ} {inv : Nat → σ → Prop} (hkeeps : w.Keeps inv)

include hkeeps

/-- **What a writer has received of one part** is its front, and all of it unless it refuses the
rest.

**Proof sketch.** Induction along the requests. What a request takes is not empty, so it is the
front of what is left, and the rest is handed over next (`TakesAll.append`, `TakesAll.stopsAt`). -/
theorem writeAll_cases (s : Stream σ) (data : ByteArray) (hs : inv s.received.size s.state) :
    ((w.writeAll s data).2 = .ok () ∧ TakesAll inv s data (w.writeAll s data).1) ∨
      ∃ cause, (w.writeAll s data).2 = .error cause ∧
        w.StopsAt inv s data (w.writeAll s data).1 cause := by
  fun_induction writeAll w s data with
  | case1 s data hempty =>
    have hdata : data = .empty := ByteArray.size_eq_zero_iff.1 hempty
    exact .inl ⟨rfl, by rw [hdata, ByteArray.append_empty], hs⟩
  | case2 s data hne cause htake =>
    exact .inr ⟨cause, rfl, stopsAt_of_refuses hne hs (.inl ⟨htake, rfl⟩)⟩
  | case3 s data hne state htake =>
    exact .inr ⟨nothingTaken, rfl, stopsAt_of_refuses hne hs (.inr ⟨htake, rfl⟩)⟩
  | case4 s data hne n state htake ih =>
    have hle : n + 1 ≤ data.size := w.take_le htake
    have hsplit : data.extract 0 (n + 1) ++ data.extract (n + 1) data.size = data := by
      rw [← ByteArray.extract_eq_extract_append_extract (n + 1) (Nat.zero_le _) hle,
        ByteArray.extract_zero_size]
    have hfront : TakesAll inv s (data.extract 0 (n + 1))
        ⟨state, s.received ++ data.extract 0 (n + 1)⟩ := by
      refine ⟨rfl, ?_⟩
      have hsize : (s.received ++ data.extract 0 (n + 1)).size = s.received.size + (n + 1) := by
        simp only [ByteArray.size_append, ByteArray.size_extract]
        omega
      rw [hsize]
      exact hkeeps hs htake
    rcases ih hfront.inv with ⟨hok, hrest⟩ | ⟨cause, herror, hrest⟩
    · have hall := hfront.append hrest
      rw [hsplit] at hall
      exact .inl ⟨hok, hall⟩
    · have hstops := hfront.stopsAt hrest
      rw [hsplit] at hstops
      exact .inr ⟨cause, herror, hstops⟩

/-- **What a writer has received of parts** is the front of them put together, `Bytes.joined parts`,
and all of it unless it refuses the rest.

**Proof sketch.** Induction on `parts`. By `writeAll_cases` the first part is received in full, and
the others follow it, or a front of it is, and the rest is refused. -/
theorem writeParts_cases (s : Stream σ) (parts : List ByteArray)
    (hs : inv s.received.size s.state) :
    ((w.writeParts s parts).2 = .ok () ∧
        TakesAll inv s (Bytes.joined parts) (w.writeParts s parts).1) ∨
      ∃ cause, (w.writeParts s parts).2 = .error (.io cause) ∧
        w.StopsAt inv s (Bytes.joined parts) (w.writeParts s parts).1 cause := by
  induction parts generalizing s with
  | nil => exact .inl ⟨rfl, ByteArray.append_empty.symm, hs⟩
  | cons part parts ih =>
    rw [Bytes.joined_cons, writeParts]
    have hpart := writeAll_cases hkeeps s part hs
    cases hrun : w.writeAll s part with
    | mk next result =>
      rw [hrun] at hpart
      rcases hpart with ⟨rfl, hall⟩ | ⟨cause, rfl, hstops⟩
      · rcases ih next hall.inv with ⟨hok, hrest⟩ | ⟨cause, herror, hrest⟩
        · exact .inl ⟨hok, hall.append hrest⟩
        · exact .inr ⟨cause, herror, hall.stopsAt hrest⟩
      · exact .inr ⟨cause, rfl, hstops.append _⟩

end Runs

/-! ## Limits -/

/-- The writer `w` takes so many bytes in all, as `room` tells: while there is some, it takes
something of whatever it is handed, and what it takes is not there any more. -/
structure Limited (w : Writer σ) (room : σ → Nat) : Prop where
  takes : ∀ {state data}, 0 < room state → 0 < data.size →
    ∃ count next, w.take state data = .ok (count, next) ∧ 0 < count
  spends : ∀ {state data count next}, w.take state data = .ok (count, next) →
    room next + count = room state

namespace Limited

variable {w : Writer σ} {room : σ → Nat} (h : w.Limited room)

include h

/-- The room and the bytes that have been taken are always `k` together, what they were at the
start. -/
private lemma keeps (k : Nat) : w.Keeps fun total state => room state + total = k := by
  intro total state data count next hinv htake
  have := h.spends htake
  omega

/-- A writer refuses bytes only when it has no room: while it has some, it takes something
(`Limited.takes`). -/
lemma room_eq_zero {state after : σ} {pending : ByteArray} {cause : IoFault}
    (hpending : 0 < pending.size) (hrefuses : w.Refuses state pending cause after) :
    room state = 0 := by
  by_contra hroom
  obtain ⟨count, next, htake, hcount⟩ := h.takes (Nat.pos_of_ne_zero hroom) hpending
  rcases hrefuses with ⟨herror, -⟩ | ⟨hnothing, -⟩
  · cases htake.symm.trans herror
  · have := htake.symm.trans hnothing
    simp only [Except.ok.injEq, Prod.mk.injEq] at this
    omega

end Limited

/-- The writer `limited piece full`, whose state is its room, has a limit. -/
private lemma limited_limited {piece : Nat} (hpiece : 0 < piece) (full : IoFault) :
    (limited piece full).Limited fun room => room where
  takes := by
    intro room data hroom hdata
    simp only [limited]
    rw [if_neg (by omega)]
    exact ⟨_, _, rfl, by omega⟩
  spends := by
    intro room data count next htake
    simp only [limited] at htake
    split at htake
    · cases htake
    · obtain ⟨rfl, rfl⟩ := Prod.mk.inj (Except.ok.inj htake)
      omega

/-- That writer refuses bytes with its own fault `full` if it has no room. -/
private lemma eq_of_limited_refuses {piece after : Nat} {full cause : IoFault} {pending : ByteArray}
    (h : (limited piece full).Refuses 0 pending cause after) : cause = full := by
  rcases h with ⟨htake, -⟩ | ⟨htake, -⟩
  · exact (Except.error.inj htake).symm
  · cases htake

end Writer

/-! ## Bundles -/

namespace Bundle

variable {σ : Type}

/-- The records of `payloads` are as long as the payloads with a length word for each. -/
private lemma size_encodeAll (payloads : List ByteArray) :
    (Record.encodeAll payloads).size =
      (payloads.map fun payload => Bytes.lengthSize + payload.size).sum := by
  induction payloads with
  | nil => rfl
  | cons payload payloads ih =>
    rw [Record.encodeAll, ByteArray.size_append, ih, Record.size_encode, List.map_cons,
      List.sum_cons]

/-- **The length of a bundle** `b`: its header, the zero byte, and each payload with its length word
(`toBytes_eq`). -/
theorem size_toBytes (b : Bundle) :
    b.toBytes.size = b.manifest.header.size + 1 +
      (b.payloads.map fun payload => Bytes.lengthSize + payload.size).sum := by
  have hzero : (⟨#[0]⟩ : ByteArray).size = 1 := rfl
  rw [toBytes_eq, ByteArray.size_append, ByteArray.size_append, hzero, size_encodeAll]
  omega

/-- **What any writer has received of a bundle** `b` is its front, and all of it unless the writer
refuses the rest, by `Writer.writeParts_cases` for the parts of `b`. -/
theorem streamTo_cases (b : Bundle) {w : Writer σ} {inv : Nat → σ → Prop} (hkeeps : w.Keeps inv)
    {state : σ} (hstate : inv 0 state) :
    ((b.streamTo w state).2 = .ok () ∧
        Writer.TakesAll inv ⟨state, .empty⟩ b.toBytes (b.streamTo w state).1) ∨
      ∃ cause, (b.streamTo w state).2 = .error (.io cause) ∧
        w.StopsAt inv ⟨state, .empty⟩ b.toBytes (b.streamTo w state).1 cause :=
  Writer.writeParts_cases hkeeps ⟨state, .empty⟩ b.parts hstate

/-- What a writer with a limit has received of a bundle `b`: all of it if it fits into `room state`,
and else as many bytes as there was room for.

**Proof sketch.** The room and the bytes that were received are the same together throughout
(`Writer.Limited.keeps`), so if all bytes were taken, they fitted. If some were refused, there was
no room (`Writer.Limited.room_eq_zero`), so as many bytes were received as there was room at the
start. -/
private lemma streamTo_of_limited (b : Bundle) {w : Writer σ} {room : σ → Nat} (h : w.Limited room)
    (state : σ) :
    let run := b.streamTo w state
    (b.toBytes.size ≤ room state ∧ run.2 = .ok () ∧ run.1.received = b.toBytes) ∨
      room state < b.toBytes.size ∧ run.1.received = b.toBytes.extract 0 (room state) ∧
        ∃ cause, run.2 = .error (.io cause) ∧ ∃ asked pending rest, room asked = 0 ∧
          b.toBytes = run.1.received ++ (pending ++ rest) ∧ 0 < pending.size ∧
          w.Refuses asked pending cause run.1.state := by
  intro run
  rcases b.streamTo_cases (h.keeps (room state)) (Nat.add_zero _) with
    ⟨hok, hreceived, hroom⟩ |
      ⟨cause, herror, asked, pending, rest, hbytes, hpending, hroom, hrefuses⟩
  · rw [ByteArray.empty_append] at hreceived
    rw [hreceived] at hroom
    exact .inl ⟨by omega, hok, hreceived⟩
  · have hempty := h.room_eq_zero hpending hrefuses
    rw [ByteArray.empty_append] at hbytes
    have hlength : run.1.received.size = room state := by
      have htotal : room asked + run.1.received.size = room state := hroom
      omega
    have hsize := congrArg ByteArray.size hbytes
    rw [ByteArray.size_append, ByteArray.size_append] at hsize
    refine .inr ⟨by omega, ?_, cause, herror, asked, pending, rest, hempty, hbytes, hpending,
      hrefuses⟩
    rw [hbytes]
    exact (ByteArray.extract_append_eq_left hlength.symm).symm

/-- **What the writer with so much room has received**: with `room` bytes left it takes the bundle
in whole, or its first `room` bytes and then fails with `full`, whatever pieces it takes.

**Proof sketch.** The writer has a limit (`Writer.limited_limited`), so `streamTo_of_limited`
applies. It refuses bytes only where it has no room, and then with its own fault
(`Writer.eq_of_limited_refuses`). -/
theorem streamTo_limited_cases (b : Bundle) {piece : Nat} (hpiece : 0 < piece) (full : IoFault)
    (room : Nat) :
    let run := b.streamTo (.limited piece full) room
    (b.toBytes.size ≤ room ∧ run.2 = .ok () ∧ run.1.received = b.toBytes) ∨
      room < b.toBytes.size ∧ run.2 = .error (.io full) ∧
        run.1.received = b.toBytes.extract 0 room := by
  intro run
  rcases b.streamTo_of_limited (Writer.limited_limited hpiece full) room with
    hall | ⟨hlt, hreceived, cause, herror, asked, pending, rest, rfl, -, -, hrefuses⟩
  · exact .inl hall
  · rw [Writer.eq_of_limited_refuses hrefuses] at herror
    exact .inr ⟨hlt, herror, hreceived⟩

/-- **What a writer with a limit has received.** A writer that takes `room state` bytes in all, in
pieces of any size, and then fails, has received that many bytes of the bundle `b` from the first
one on, or the whole of it if it is not longer. Only then the streaming succeeds. Otherwise the
fault is told with which the writer refused the bytes that come next.

**Proof sketch.** The two cases of `streamTo_of_limited`, with the length of `size_toBytes`. -/
theorem streamTo_limited {w : Writer σ} {room : σ → Nat} (h : w.Limited room) (b : Bundle)
    (state : σ) :
    let run := b.streamTo w state
    (run.2 = .ok () ↔ b.toBytes.size ≤ room state) ∧
    run.1.received = b.toBytes.extract 0 (min (room state) b.toBytes.size) ∧
    (∀ e, run.2 = .error e → ∃ cause, e = .io cause ∧ ∃ asked pending rest, room asked = 0 ∧
      b.toBytes = run.1.received ++ (pending ++ rest) ∧ 0 < pending.size ∧
      w.Refuses asked pending cause run.1.state) ∧
    b.toBytes.size = b.manifest.header.size + 1 +
      (b.payloads.map fun payload => 4 + payload.size).sum := by
  intro run
  rcases b.streamTo_of_limited h state with
    ⟨hle, hok, hreceived⟩ | ⟨hlt, hreceived, cause, herror, hrefused⟩
  · refine ⟨iff_of_true hok hle, ?_, fun e he => ?_, b.size_toBytes⟩
    · rw [Nat.min_eq_right hle, hreceived]
      exact ByteArray.extract_zero_size.symm
    · cases hok.symm.trans he
  · refine ⟨iff_of_false (fun hok => ?_) (by omega), ?_, fun e he => ?_, b.size_toBytes⟩
    · cases hok.symm.trans herror
    · rw [Nat.min_eq_left (Nat.le_of_lt hlt), hreceived]
    · exact ⟨cause, Except.error.inj (he.symm.trans herror), hrefused⟩

/-- Of a bundle of a payload of two bytes and an empty one, a writer that takes three bytes at a
time and fails two bytes before the end has received the first record and half of the length of the
other. -/
theorem streamTo_limited_twoPayloads :
    (Writer.limited 3 (.described "no room")).Limited (fun room => room) ∧
      (twoPayloads.streamTo (.limited 3 (.described "no room"))
        (twoPayloads.manifest.header.size + 9)).2 = .error (.io (.described "no room")) ∧
      (twoPayloads.streamTo (.limited 3 (.described "no room"))
        (twoPayloads.manifest.header.size + 9)).1.received =
          twoPayloads.manifest.header ++ ⟨#[0, 2, 0, 0, 0, 7, 0, 0, 0]⟩ := by
  have hsum : (twoPayloads.payloads.map fun payload => 4 + payload.size).sum = 10 := rfl
  have hrecords : (⟨#[0]⟩ ++ Record.encodeAll twoPayloads.payloads).extract 0 9 =
    ⟨#[0, 2, 0, 0, 0, 7, 0, 0, 0]⟩ := rfl
  -- Only the payloads matter, so the header is not looked into.
  generalize twoPayloads = bundle at *
  have hlimited := Writer.limited_limited (by decide : 0 < 3) (.described "no room")
  obtain ⟨hok, hreceived, herror, hsize⟩ :=
    streamTo_limited hlimited bundle (bundle.manifest.header.size + 9)
  have hlength : bundle.manifest.header.size + 9 < bundle.toBytes.size := by
    rw [hsize, hsum]
    omega
  refine ⟨hlimited, ?_, ?_⟩
  · cases hresult : (bundle.streamTo (.limited 3 (.described "no room"))
      (bundle.manifest.header.size + 9)).2 with
    | ok _ =>
      have := hok.1 hresult
      omega
    | error e =>
      obtain ⟨cause, rfl, asked, pending, rest, rfl, -, -, hrefuses⟩ := herror e hresult
      rw [Writer.eq_of_limited_refuses hrefuses]
  · rw [hreceived, Nat.min_eq_left (Nat.le_of_lt hlength), toBytes_eq, ByteArray.extract_append,
      Bytes.extract_eq_self (Nat.le_add_right _ 9), Nat.zero_sub, Nat.add_sub_cancel_left, hrecords]

end Bundle

end FirmwareBundle
