import FirmwareBundle.Proofs.FailedScans
/-!
# Extraction confined to its directory

A caller of an extraction need not stop at a payload that is refused. Whatever names and payloads
are handed over, one after the other, only the files of those that were taken are written: each at
its name in the directory, with the payload that was taken last under that name. No other place
changes, so in particular nothing outside the directory does.

## Main definitions

* `FirmwareBundle.Sink.attempts` — payloads handed over one after the other, also after a refusal.
* `FirmwareBundle.Extraction.Stores` — what one call that succeeds does.

## Main results

* `FirmwareBundle.Sink.feed_attempts` — the state is the one that the payloads taken lead to.
* `FirmwareBundle.Extraction.stores_of_accept_eq_ok` — one call that succeeds.
* `FirmwareBundle.Extraction.attempts_confined` — any calls, and what the next one does.
-/

namespace FirmwareBundle

/-! ## Calls that go on after a refusal -/

namespace Sink

variable {σ : Type} {sink : Sink σ} {start : σ} {record : PartitionSpec × ByteArray}

/-- A sink after some calls: the payloads `taken`, and its `state`. -/
structure Attempts (σ : Type) where
  taken : List (PartitionSpec × ByteArray)
  state : σ

/-- Hands over the payload of `record`. If it is refused, the sink is left as it is. -/
def attempt (sink : Sink σ) (s : Attempts σ) (record : PartitionSpec × ByteArray) : Attempts σ :=
  match sink.accept s.state record.1 record.2 with
  | .ok state => ⟨s.taken ++ [record], state⟩
  | .error _ => s

/-- Hands over the payloads of `records` one after the other, whether or not those before were
refused. -/
def attempts (sink : Sink σ) (start : σ) (records : List (PartitionSpec × ByteArray)) :
    Attempts σ :=
  records.foldl sink.attempt ⟨[], start⟩

/-- The payload of the last `record` is handed over to the sink that the others have left. -/
lemma attempts_concat (sink : Sink σ) (start : σ) (records : List (PartitionSpec × ByteArray))
    (record : PartitionSpec × ByteArray) :
    sink.attempts start (records ++ [record]) =
      sink.attempt (sink.attempts start records) record := by
  rw [attempts, List.foldl_append]
  rfl

/-- The payload of one more `record` is taken, or nothing happens. -/
lemma attempt_cases (sink : Sink σ) (s : Attempts σ) (record : PartitionSpec × ByteArray) :
    (∃ state, sink.accept s.state record.1 record.2 = .ok state ∧
      sink.attempt s record = ⟨s.taken ++ [record], state⟩) ∨
    ∃ e, sink.accept s.state record.1 record.2 = .error e ∧ sink.attempt s record = s := by
  rw [attempt]
  cases sink.accept s.state record.1 record.2 with
  | ok state => exact .inl ⟨state, rfl, rfl⟩
  | error e => exact .inr ⟨e, rfl, rfl⟩

/-- One more payload leaves the state the one that the payloads taken lead to from `start`. -/
private lemma feed_attempt {s : Attempts σ} (h : sink.feed start s.taken = .ok s.state) :
    sink.feed start (sink.attempt s record).taken = .ok (sink.attempt s record).state := by
  rcases sink.attempt_cases s record with ⟨state, haccept, hs⟩ | ⟨-, -, hs⟩
  · rw [hs]
    refine feed_append_eq_ok_iff.2 ⟨s.state, h, ?_⟩
    rw [feed_cons, haccept]
    rfl
  · rwa [hs]

/-- **Payloads handed over** leave the state that those which were taken lead to by themselves, from
`start` on. Induction on `records` from the end, with `Sink.feed_attempt` for the last of them. -/
theorem feed_attempts (sink : Sink σ) (start : σ) (records : List (PartitionSpec × ByteArray)) :
    sink.feed start (sink.attempts start records).taken =
      .ok (sink.attempts start records).state := by
  have hrun : ∀ s : Attempts σ, sink.feed start s.taken = .ok s.state →
      sink.feed start (records.foldl sink.attempt s).taken =
        .ok (records.foldl sink.attempt s).state := by
    induction records with
    | nil => exact fun _ h => h
    | cons record records ih => exact fun s h => ih _ (feed_attempt h)
  exact hrun ⟨[], start⟩ rfl

/-- The payloads that are taken are some of `records`, in the same order. Induction on `records`
from the end: the last payload is taken behind the others, or not at all (`Sink.attempt_cases`). -/
private lemma taken_attempts_sublist (sink : Sink σ) (start : σ)
    (records : List (PartitionSpec × ByteArray)) :
    (sink.attempts start records).taken.Sublist records := by
  have hrun : ∀ s : Attempts σ,
      (records.foldl sink.attempt s).taken.Sublist (s.taken ++ records) := by
    induction records with
    | nil => exact fun s => List.sublist_append_left s.taken []
    | cons record records ih =>
      intro s
      refine (ih (sink.attempt s record)).trans ?_
      rcases sink.attempt_cases s record with ⟨state, -, hs⟩ | ⟨-, -, hs⟩
      · rw [hs, List.append_assoc, List.singleton_append]
      · rw [hs]
        exact (List.sublist_cons_self record records).append_left s.taken
  exact hrun ⟨[], start⟩

end Sink

/-! ## One call -/

namespace Extraction

variable {dir : String} {s s' : Extraction} {spec : PartitionSpec} {payload : ByteArray}

/-- What a call that succeeds does: `payload` is all that is in the file named `spec.name` in the
directory `dir`, its path is noted behind the others, and nothing else has changed between `before`
and `after`. -/
structure Stores (dir : String) (before after : Extraction) (spec : PartitionSpec)
    (payload : ByteArray) : Prop where
  plain : Path.isPlainName spec.name
  written : after.written = before.written ++ [Path.join dir spec.name]
  read : after.files.read (Path.join dir spec.name) = .ok payload
  exists_place : ∃ place,
    before.files.walk (before.files.origin dir) (Path.parts dir) = .ok place ∧
      after.files.tree.get? (place ++ [spec.name]) = some (.file payload) ∧
      before.files.SameExcept after.files [place ++ [spec.name]]

/-- **A call that succeeds** stores the `payload` of `spec`. It has found a place for it in `dir`,
and the file is put there and nowhere else. -/
theorem stores_of_accept_eq_ok (h : s.accept dir spec payload = .ok s') :
    Stores dir s s' spec payload := by
  obtain ⟨hplain, place, hnames, rfl⟩ := accept_eq_ok_iff_exists.1 h
  obtain ⟨found, hwalk, rfl⟩ := hnames.exists_walk hplain
  refine ⟨hplain, rfl, hnames.read_put payload, found, hwalk, ?_,
    FileSystem.sameExcept_put hnames.ne_nil payload⟩
  rw [FileSystem.get?_tree_put hnames.ne_nil, if_pos rfl]

/-- **A call that fails** is told with the path that was asked for, `Path.join dir spec.name`.
Either `spec.name` is not plain, or the file cannot even be opened. -/
theorem exists_create_of_accept_eq_error {e : BundleError}
    (h : s.accept dir spec payload = .error e) :
    ∃ cause, e = .write (Path.join dir spec.name) cause ∧
      if Path.isPlainName spec.name then s.files.create (Path.join dir spec.name) = .error cause
      else cause = .notPlainName := by
  obtain ⟨cause, he, hcause⟩ := exists_of_accept_eq_error h
  rw [FileSystem.write_eq_error_iff] at hcause
  exact ⟨cause, he, hcause⟩

/-- A name that could lead elsewhere is refused: `Path.isPlainName_iff` lists all such names. -/
private lemma accept_of_not_isPlainName (h : spec.name = "" ∨ spec.name = "." ∨ spec.name = ".." ∨
    '/' ∈ spec.name.toList ∨ '\\' ∈ spec.name.toList ∨ '\x00' ∈ spec.name.toList) :
    s.accept dir spec payload = .error (.write (Path.join dir spec.name) .notPlainName) := by
  have hplain : ¬Path.isPlainName spec.name := by
    rw [Path.isPlainName_iff]
    tauto
  rw [accept, if_neg hplain]

/-! ## Any calls -/

/-- **Extraction is confined to its directory.** Payloads are handed over with any names, and the
`calls` go on after one that fails. The files of those that succeed, and no other places, are
changed: each holds, at its name directly in `dir`, what was stored last under that name. Their
paths are noted in the order of the calls, those that are written again too.

This holds after each call, so the next one is described as well. Whether it succeeds depends on its
name and on the directories as they were at the start. If it does, its payload is stored, and if it
fails, nothing happens; a name that is empty, is a dot or two, or has a slash, a backslash or a zero
character in it always makes it fail.

**Proof sketch.** By `Sink.feed_attempts` the state is the one after the payloads taken, none of
which was refused, so `Extraction.exists_of_feed_eq_ok` describes it: the payloads are put at their
names in one directory. Putting files there moves no directory, so the next call finds the same
`place`, and it stores its payload (`Extraction.stores_of_accept_eq_ok`) or changes nothing. -/
theorem attempts_confined (files : FileSystem) (dir : String)
    (calls : List (PartitionSpec × ByteArray)) :
    let run := (Sink.extract dir).attempts ⟨files, []⟩ calls
    run.taken.Sublist calls ∧
    run.state.written = run.taken.map (fun call => Path.join dir call.1.name) ∧
    (∃ place, (run.taken ≠ [] → files.walk (files.origin dir) (Path.parts dir) = .ok place) ∧
      (∀ front spec payload back, run.taken = front ++ (spec, payload) :: back →
        (∀ later ∈ back, later.1.name ≠ spec.name) →
        run.state.files.tree.get? (place ++ [spec.name]) = some (.file payload) ∧
          run.state.files.read (Path.join dir spec.name) = .ok payload) ∧
      files.SameExcept run.state.files (run.taken.map fun call => place ++ [call.1.name])) ∧
    ∀ spec payload,
      let path := Path.join dir spec.name
      let next := (Sink.extract dir).attempts ⟨files, []⟩ (calls ++ [(spec, payload)])
      ((∃ s, run.state.accept dir spec payload = .ok s) ↔
        Path.isPlainName spec.name ∧ ∃ place, files.Names path place) ∧
      (∀ s, run.state.accept dir spec payload = .ok s →
        next = ⟨run.taken ++ [(spec, payload)], s⟩ ∧ Stores dir run.state s spec payload) ∧
      (∀ e, run.state.accept dir spec payload = .error e → next = run ∧
        ∃ cause, e = .write path cause ∧
          if Path.isPlainName spec.name then run.state.files.create path = .error cause
          else cause = .notPlainName) ∧
      ((spec.name = "" ∨ spec.name = "." ∨ spec.name = ".." ∨ '/' ∈ spec.name.toList ∨
          '\\' ∈ spec.name.toList ∨ '\x00' ∈ spec.name.toList) →
        run.state.accept dir spec payload = .error (.write path .notPlainName)) := by
  intro run
  obtain ⟨place, hplain, hwalk, hstate⟩ :=
    exists_of_feed_eq_ok ((Sink.extract dir).feed_attempts ⟨files, []⟩ calls)
  replace hstate : run.state = ⟨files.putAll (extracted place run.taken), _⟩ := hstate
  have hnames : ∀ call ∈ run.taken,
      files.Names (Path.join dir call.1.name) (place ++ [call.1.name]) :=
    fun call hcall => (hplain call hcall).2
  have hsame := sameDirectories_extracted hnames
  refine ⟨Sink.taken_attempts_sublist _ _ calls, ?_, ⟨place, hwalk, ?_, ?_⟩, fun spec payload => ?_⟩
  · rw [hstate, List.nil_append]
  · intro front spec payload back htaken hlast
    rw [hstate]
    exact read_extracted_of_last hnames htaken hlast
  · rw [hstate, ← map_fst_extracted]
    exact FileSystem.sameExcept_putAll fun _ => ne_nil_of_mem_extracted
  · intro path next
    have hnext : next = (Sink.extract dir).attempt run (spec, payload) := Sink.attempts_concat ..
    refine ⟨?_, fun s hs => ⟨?_, stores_of_accept_eq_ok hs⟩,
      fun e he => ⟨?_, exists_create_of_accept_eq_error he⟩, accept_of_not_isPlainName⟩
    · -- The paths lead where they led before the first call.
      simp only [accept_eq_ok_iff_exists, hstate, hsame.names_iff]
      constructor
      · rintro ⟨_, hname, place, hplace, -⟩
        exact ⟨hname, place, hplace⟩
      · rintro ⟨hname, place, hplace⟩
        exact ⟨_, hname, place, hplace, rfl⟩
    · rw [hnext, Sink.attempt]
      simp only [Sink.extract, hs]
    · rw [hnext, Sink.attempt]
      simp only [Sink.extract, he]

/-- Calls with one name twice, and with names that would lead elsewhere in between. -/
def hostileCalls : List (PartitionSpec × ByteArray) :=
  [(⟨"a", 1, none, none⟩, ⟨#[4]⟩), (⟨"../dump", 1, none, none⟩, ⟨#[5]⟩),
    (⟨"/out/b", 1, none, none⟩, ⟨#[6]⟩), (⟨"a", 2, none, none⟩, ⟨#[7, 0]⟩),
    (⟨"", 0, none, none⟩, .empty)]

/-- After `hostileCalls` the one file of that name holds the later payload of the two, and another
file of the directory is as it was. A call with the name of the directory above is refused. -/
theorem attempts_confined_hostileCalls :
    ∃ s, ((Sink.extract "out").attempts ⟨.withOutputs, []⟩ hostileCalls).state = s ∧
      s.written = ["out/a", "out/a"] ∧ s.files.read "out/a" = .ok ⟨#[7, 0]⟩ ∧
      s.files.tree.get? ["out", "b"] = some (.file ⟨#[9]⟩) ∧
      s.accept "out" ⟨"..", 1, none, none⟩ ⟨#[1]⟩ = .error (.write "out/.." .notPlainName) := by
  obtain ⟨-, hwritten, ⟨place, hwalk, hlast, hexcept⟩, hnext⟩ :=
    attempts_confined .withOutputs "out" hostileCalls
  have htaken : ((Sink.extract "out").attempts ⟨.withOutputs, []⟩ hostileCalls).taken =
      [(⟨"a", 1, none, none⟩, ⟨#[4]⟩), (⟨"a", 2, none, none⟩, ⟨#[7, 0]⟩)] := rfl
  rw [htaken] at hwritten hwalk hlast hexcept
  obtain rfl : ["out"] = place := Except.ok.inj (hwalk (List.cons_ne_nil _ _))
  obtain ⟨-, hread⟩ := hlast [_] _ _ [] rfl nofun
  exact ⟨_, rfl, hwritten, hread, hexcept.get?_eq ["out", "b"] (by decide),
    (hnext ⟨"..", 1, none, none⟩ ⟨#[1]⟩).2.2.2 (.inr (.inr (.inl rfl)))⟩

end Extraction

end FirmwareBundle
