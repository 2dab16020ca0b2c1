import FirmwareBundle.Command.Run
import FirmwareBundle.Proofs.FailedScans
import FirmwareBundle.Proofs.Saving
/-!
# How commands end

A command that fails prints nothing. It reads the settings first, so if they cannot be used it fails
whatever it was to do, and nothing else has been read by then. What the other faults leave is that
of the writing or the scanning of a bundle. A command that is carried out prints the lines of its
report and nothing else.

## Main definitions

* `FirmwareBundle.selectedSettings` — the file that the settings are read from.
* `FirmwareBundle.BundleError.isEarly` — the errors that are told before anything is written.

## Main results

* `FirmwareBundle.scanFile_error_cases` — the errors of the scan of a file.
* `FirmwareBundle.run_of_settings_error` — runs whose settings cannot be used.
* `FirmwareBundle.exists_of_run_config` — there are no others that fail for the settings.
* `FirmwareBundle.run_inspect_failure_eq_none_iff` — the inspections that succeed.
* `FirmwareBundle.run_outcome` — how a run ends.
-/

namespace FirmwareBundle

open CommandLine

variable {files : FileSystem}

/-! ## Settings -/

/-- The file that the settings are read from: the `explicit` one that is named, else the user's
under `configHome` if there is one. -/
def selectedSettings (files : FileSystem) (configHome explicit : Option String) : Option String :=
  explicit <|> (configHome.map userSettingsPath).filter files.isFile

/-- The settings are read from the file that is selected, and without one the standard ones are
taken. The file is named as the one it was selected as in the log. -/
lemma loadSettings_eq (files : FileSystem) (configHome explicit : Option String) :
    loadSettings files configHome explicit =
      match selectedSettings files configHome explicit with
      | some path => (settingsLog path, Settings.ofFile files path)
      | none => ([⟨.debug, "No configuration file found, using defaults"⟩], .ok {}) := by
  cases explicit with
  | some path => rfl
  | none => rfl

/-- The settings in the file at `path` are refused if it cannot be read or if its `text` is. -/
lemma Settings.ofFile_eq_error_iff {path : String} {e : BundleError} :
    Settings.ofFile files path = .error e ↔
      (∃ cause, files.readText path = .error cause ∧ e = .config (.unreadable path cause)) ∨
      ∃ text fault, files.readText path = .ok text ∧ Settings.ofText text = .error fault ∧
        e = .config fault := by
  rw [Settings.ofFile]
  cases files.readText path with
  | error cause => simp [eq_comm]
  | ok text =>
    cases hfault : Settings.ofText text with
    | error fault => simp [hfault, Except.mapError, eq_comm]
    | ok settings => simp [hfault, Except.mapError]

/-! ## Output -/

namespace CommandRun

/-- The run `r` prints nothing if it fails. -/
def Silent (r : CommandRun) : Prop :=
  r.failure.isSome → r.stdout = ""

/-- A run that failed has printed nothing. -/
private lemma silent_failed (log : List LogRecord) (files : FileSystem) (e : CommandError) :
    (failed log files e).Silent :=
  fun _ => rfl

/-- A run that was carried out did not fail. -/
private lemma silent_succeeded (log : List LogRecord) (files : FileSystem) (lines : List String) :
    (succeeded log files lines).Silent :=
  nofun

end CommandRun

/-- **A command that fails prints nothing.**

**Proof sketch.** Every branch of a command ends in `CommandRun.failed`, which prints nothing, or in
`CommandRun.succeeded`, which is no failure. -/
theorem silent_runCommand (files : FileSystem) (settings : Settings) (command : Command) :
    (runCommand files settings command).Silent := by
  cases command with
  | build a =>
    rw [runCommand, runBuild]
    split
    · exact CommandRun.silent_failed _ _ _
    · exact CommandRun.silent_succeeded _ _ _
  | inspect a =>
    rw [runCommand, runInspect]
    split
    · exact CommandRun.silent_failed _ _ _
    · exact CommandRun.silent_succeeded _ _ _
  | manifest file =>
    rw [runCommand, runManifest]
    split
    · exact CommandRun.silent_failed _ _ _
    · split
      · exact CommandRun.silent_failed _ _ _
      · exact CommandRun.silent_succeeded _ _ _

/-! ## Errors -/

/-- The errors that are told before anything is written: those of the settings, of an input that
cannot be read, and of a header without an end or that is no manifest. -/
def BundleError.isEarly : BundleError → Bool
  | .config _ | .missingInput _ _ | .broken .missingTerminator | .manifest _ => true
  | _ => false

/-- **The errors of the scan of a file.** Nothing has been done if the input at `path` cannot be
read or has no header. Otherwise a payload cannot be written, or the records are at fault.

**Proof sketch.** A file that is read is scanned as its bytes are, and `scanInto_error_cases` says
how that fails. A header fails as `readManifest_eq_error_iff` says, and a fault in the records is a
broken dump other than a missing terminator. -/
theorem scanFile_error_cases {path : String} {mode : ScanMode} {e : BundleError}
    (h : (scanFile files path mode).result = .error e) :
    (((∃ cause, e = .missingInput path cause) ∨ e = .broken .missingTerminator ∨
        ∃ fault, e = .manifest fault) ∧ (scanFile files path mode).sink = files) ∨
    (∃ target cause, e = .write target cause) ∨
    ∃ reason, e = .broken reason ∧ reason ≠ .missingTerminator := by
  cases hread : files.read path with
  | error cause =>
    rw [scanFile_of_read_eq_error hread] at h ⊢
    obtain rfl := Except.error.inj h
    exact .inl ⟨.inl ⟨cause, rfl⟩, rfl⟩
  | ok data =>
    rw [scanFile_of_read_eq_ok hread] at h ⊢
    rcases scanInto_error_cases h with
      ⟨hmanifest, hsink⟩ | ⟨-, hwrite⟩ | ⟨_, _, _, -, -, hfault, -⟩
    · refine .inl ⟨.inr ?_, hsink⟩
      rcases readManifest_eq_error_iff.1 hmanifest with ⟨-, heq⟩ | ⟨_, fault, -, -, heq⟩
      · exact .inl heq
      · exact .inr ⟨fault, heq⟩
    · exact .inr (.inl hwrite)
    · exact .inr (.inr (exists_of_structuralFault_eq_some hfault))

/-- **The early errors of a scan** leave the `files` as they were, and so does a scan that only
tells what is in a bundle.

**Proof sketch.** A summary has no files to write. Of the errors in `scanFile_error_cases` the first
are those before anything is done, and no other is early. -/
theorem sink_scanFile {path : String} {mode : ScanMode}
    (h : mode = .summary ∨
      ∃ e, (scanFile files path mode).result = .error e ∧ e.isEarly = true) :
    (scanFile files path mode).sink = files := by
  rcases h with rfl | ⟨e, he, hearly⟩
  · cases hread : files.read path with
    | error cause => rw [scanFile_of_read_eq_error hread]
    | ok data =>
      rw [scanFile_of_read_eq_ok hread]
      rfl
  · rcases scanFile_error_cases he with ⟨-, hsink⟩ | ⟨_, _, rfl⟩ | ⟨reason, rfl, hne⟩
    · exact hsink
    · cases hearly
    · cases reason with
      | missingTerminator => exact absurd rfl hne
      | _ => cases hearly

/-- A scan does not fail for the settings: `scanFile_error_cases` lists no such error. -/
private lemma scanFile_ne_config {path : String} {mode : ScanMode} {fault : ConfigFault} :
    (scanFile files path mode).result ≠ .error (.config fault) := by
  intro h
  rcases scanFile_error_cases h with
    ⟨⟨_, heq⟩ | heq | ⟨_, heq⟩, -⟩ | ⟨_, _, heq⟩ | ⟨_, heq, -⟩ <;> cases heq

/-- The bundle of a builder `b` is not built only because a payload is too large. -/
private lemma Builder.exists_of_build_eq_error {b : Builder} {e : BundleError}
    (h : b.build = .error e) :
    ∃ name size capacity, e = .oversize name size capacity := by
  cases hfind : b.payloads.toList.find? fun image => b.packing.capacity image.1 < image.2.size with
  | none =>
    obtain ⟨bundle, hbuild⟩ := Builder.exists_build_of_find?_eq_none hfind
    cases h.symm.trans hbuild
  | some image =>
    exact ⟨_, _, _, Except.error.inj (h.symm.trans (Builder.build_of_find?_eq_some hfind))⟩

/-- The writing of a bundle does not fail for the settings.

**Proof sketch.** It fails for a source (`writeBundle_of_find?_eq_some`), or else for a payload that
is too large (`Builder.exists_of_build_eq_error`) or for the `output`
(`writeBundle_of_find?_eq_none`). -/
private lemma writeBundle_ne_config {sources : Slots String} {b : Builder} {output : String}
    {fault : ConfigFault} :
    (writeBundle files sources b output).result ≠ .error (.config fault) := by
  intro h
  cases hfind : sources.toList.find? fun source => !files.isFile source.2 with
  | some source =>
    obtain ⟨-, cause, -, hresult⟩ := writeBundle_of_find?_eq_some hfind
    cases hresult.symm.trans h
  | none =>
    rcases writeBundle_of_find?_eq_none hfind b output with
      ⟨-, e, hbuild, hresult⟩ | ⟨bundle, -, ⟨cause, -, -, hresult⟩ | ⟨-, hresult⟩⟩
    · obtain rfl := Except.error.inj (hresult.symm.trans h)
      obtain ⟨_, _, _, heq⟩ := Builder.exists_of_build_eq_error hbuild
      cases heq
    · cases hresult.symm.trans h
    · cases hresult.symm.trans h

/-! ## Commands -/

section Inspect

variable {settings : Settings} {a : InspectArguments}

/-- An inspection fails if the scan does, with its error `e`. -/
private lemma runInspect_of_error {e : BundleError}
    (h : (scanFile files a.file (scanMode settings.inspect a)).result = .error e) :
    (runInspect files settings a).failure =
      some (.bundle (some ("Failed to read bundle " ++ a.file)) e) := by
  rw [runInspect]
  simp only [h]
  rfl

/-- An inspection is carried out if the scan is, and prints the lines of its `report`. -/
private lemma runInspect_of_ok {report : ScanReport}
    (h : (scanFile files a.file (scanMode settings.inspect a)).result = .ok report) :
    (runInspect files settings a).failure = none ∧
      (runInspect files settings a).stdout = String.join
        ((reportLines (scanMode settings.inspect a) report).map (· ++ "\n")) := by
  rw [runInspect]
  simp only [h]
  exact ⟨rfl, rfl⟩

/-- The files after an inspection with `settings` are those after the scan. -/
private lemma files_runInspect (files : FileSystem) (settings : Settings) (a : InspectArguments) :
    (runInspect files settings a).files =
      (scanFile files a.file (scanMode settings.inspect a)).sink := by
  rw [runInspect]
  split <;> rfl

end Inspect

/-- Printing the header of `file` leaves the `files` as they are. -/
private lemma files_runManifest (files : FileSystem) (file : String) :
    (runManifest files file).files = files := by
  rw [runManifest]
  split
  · rfl
  · split <;> rfl

/-- With `settings` no `command` fails for the settings.

**Proof sketch.** Neither the writing nor the scan of a bundle fails for them
(`writeBundle_ne_config`, `scanFile_ne_config`), and the header of a bundle is refused with other
errors (`readManifest_eq_error_iff`). -/
private lemma runCommand_ne_config {settings : Settings} {command : Command}
    {context : Option String} {fault : ConfigFault} :
    (runCommand files settings command).failure ≠ some (.bundle context (.config fault)) := by
  cases command with
  | build a =>
    rw [runCommand, runBuild]
    split
    · rename_i hresult
      rintro ⟨⟩
      exact writeBundle_ne_config hresult
    · nofun
  | inspect a =>
    rw [runCommand, runInspect]
    split
    · rename_i hresult
      rintro ⟨⟩
      exact scanFile_ne_config hresult
    · nofun
  | manifest file =>
    rw [runCommand, runManifest]
    split
    · nofun
    · split
      · rename_i hmanifest
        rintro ⟨⟩
        rcases readManifest_eq_error_iff.1 hmanifest with ⟨-, heq⟩ | ⟨_, _, -, -, heq⟩
        · cases heq
        · cases heq
      · nofun

/-! ## Runs -/

section Run

variable {configHome : Option String} {invocation : Invocation}

/-- With `settings` a run is that of its command behind the `log` of reading them. -/
private lemma run_of_settings {log : List LogRecord} {settings : Settings}
    (h : loadSettings files configHome invocation.config = (log, .ok settings)) :
    run files configHome invocation = (runCommand files settings invocation.command).after log := by
  rw [run, h]

/-- **Without settings a run fails** at once: it has told that it was to read them from `path`, and
its command has no part in it. -/
theorem run_of_settings_error {path : String} {e : BundleError}
    (hpath : selectedSettings files configHome invocation.config = some path)
    (h : Settings.ofFile files path = .error e) :
    run files configHome invocation = .failed (settingsLog path) files (.bundle none e) := by
  rw [run, loadSettings_eq, hpath]
  simp only [h]

/-- A run either has no settings, and fails for that, or is that of its command with `settings`. -/
lemma run_cases (files : FileSystem) (configHome : Option String) (invocation : Invocation) :
    (∃ path e, selectedSettings files configHome invocation.config = some path ∧
      Settings.ofFile files path = .error e ∧
      (loadSettings files configHome invocation.config).2 = .error e ∧
      run files configHome invocation = .failed (settingsLog path) files (.bundle none e)) ∨
    ∃ log settings, loadSettings files configHome invocation.config = (log, .ok settings) ∧
      run files configHome invocation =
        (runCommand files settings invocation.command).after log := by
  rcases hload : loadSettings files configHome invocation.config with ⟨log, e | settings⟩
  · left
    have hselected := hload
    rw [loadSettings_eq] at hselected
    split at hselected
    · rename_i path hpath
      obtain ⟨-, herror⟩ := Prod.mk.inj hselected
      exact ⟨path, e, hpath, herror, rfl, run_of_settings_error hpath herror⟩
    · cases hselected
  · exact .inr ⟨log, settings, rfl, run_of_settings hload⟩

/-- **A run that fails prints nothing.** By `run_cases` it fails for its settings or as its command
does. -/
theorem silent_run (files : FileSystem) (configHome : Option String) (invocation : Invocation) :
    (run files configHome invocation).Silent := by
  rcases run_cases files configHome invocation with
    ⟨path, e, -, -, -, hrun⟩ | ⟨log, settings, -, hrun⟩
  · rw [hrun]
    exact CommandRun.silent_failed _ _ _
  · rw [hrun]
    exact silent_runCommand files settings invocation.command

/-- **A run fails for the settings** only if there is a file of settings that cannot be used: its
command does not fail for them (`runCommand_ne_config`). -/
theorem exists_of_run_config {context : Option String} {fault : ConfigFault}
    (h : (run files configHome invocation).failure = some (.bundle context (.config fault))) :
    ∃ path, selectedSettings files configHome invocation.config = some path ∧
      Settings.ofFile files path = .error (.config fault) := by
  rcases run_cases files configHome invocation with
    ⟨path, e, hpath, herror, -, hrun⟩ | ⟨log, settings, -, hrun⟩
  · rw [hrun] at h
    obtain ⟨-, rfl⟩ := CommandError.bundle.inj (Option.some.inj h)
    exact ⟨path, hpath, herror⟩
  · rw [hrun] at h
    exact absurd h runCommand_ne_config

/-- Printing a header leaves the `files` as they are. So does looking into a bundle unless there is
something to be written, and also then if it fails early.

**Proof sketch.** A run without settings leaves them, and one with settings is that of its command
(`run_cases`). An inspection leaves what its scan leaves (`files_runInspect`), which is described by
`sink_scanFile`: it has the error of the scan. -/
private lemma files_run (h : (∃ file, invocation.command = .manifest file) ∨
    ∃ a, invocation.command = .inspect a ∧ (a.extract = false ∧ a.full = false ∨
      ∃ context e, (run files configHome invocation).failure = some (.bundle context e) ∧
        e.isEarly = true)) :
    (run files configHome invocation).files = files := by
  rcases run_cases files configHome invocation with
    ⟨path, e, -, -, -, hrun⟩ | ⟨log, settings, -, hrun⟩
  · rw [hrun]
    rfl
  rw [hrun] at h ⊢
  show (runCommand files settings invocation.command).files = files
  rcases h with ⟨file, hcommand⟩ | ⟨a, hcommand, h⟩
  · rw [hcommand]
    exact files_runManifest files file
  · rw [hcommand] at h ⊢
    refine (files_runInspect files settings a).trans (sink_scanFile ?_)
    rcases h with ⟨hextract, hfull⟩ | ⟨context, e, hfailure, hearly⟩
    · exact .inl (by simp [scanMode, hextract, hfull])
    · right
      cases hscan : (scanFile files a.file (scanMode settings.inspect a)).result with
      | ok report => cases (runInspect_of_ok hscan).1.symm.trans hfailure
      | error fault =>
        obtain ⟨-, rfl⟩ := CommandError.bundle.inj
          (Option.some.inj ((runInspect_of_error hscan).symm.trans hfailure))
        exact ⟨fault, rfl, hearly⟩

end Run

/-! ## Inspections -/

/-- The line behind those of the partitions in this mode. -/
def ScanMode.closing : ScanMode → String
  | .concatenate path => "💾 Valid partitions written to " ++ path ++ "\n"
  | _ => ""

/-- The lines of a `report` one behind the other: those of the partitions in the order of the table,
and the closing one of `mode`. -/
private lemma join_reportLines (mode : ScanMode) (report : ScanReport) :
    String.join ((reportLines mode report).map (· ++ "\n")) =
      String.join (report.outcomes.map fun outcome => outcome.line mode ++ "\n") ++
        mode.closing := by
  have hlines : (report.outcomes.map (Outcome.line mode)).map (· ++ "\n") =
      report.outcomes.map fun outcome => outcome.line mode ++ "\n" := List.map_map
  have hlast : ∀ line, String.join [line ++ "\n"] = line ++ "\n" := by
    intro line
    rw [String.join_cons, String.join_nil, String.append_empty]
  unfold reportLines
  rw [List.map_append, hlines, String.join_append]
  cases mode with
  | summary => rfl
  | extract dir => rfl
  | concatenate path => exact congrArg _ (hlast _)

section Inspections

variable {configHome : Option String} {invocation : Invocation} {a : InspectArguments}
  (hcommand : invocation.command = .inspect a)

include hcommand

/-- **An inspection succeeds** exactly if there are `settings`, the bundle can be read, and its scan
succeeds in the mode that the settings and the arguments `a` ask for.

**Proof sketch.** A run without settings fails, and one with settings is that of its command
(`run_cases`). This fails exactly if the scan of the file does, which needs the `data` of the file
first. -/
theorem run_inspect_failure_eq_none_iff :
    (run files configHome invocation).failure = none ↔ ∃ settings data report,
      (loadSettings files configHome invocation.config).2 = .ok settings ∧
      files.read a.file = .ok data ∧
      (scanInto files data (scanMode settings.inspect a)).result = .ok report := by
  rcases run_cases files configHome invocation with
    ⟨path, e, -, -, hload, hrun⟩ | ⟨log, settings, hload, hrun⟩
  · rw [hrun, hload]
    simp [CommandRun.failed]
  · rw [hrun, hload, hcommand]
    show (runInspect files settings a).failure = none ↔ _
    simp only [Except.ok.injEq, exists_and_left, exists_eq_left']
    cases hscan : (scanFile files a.file (scanMode settings.inspect a)).result with
    | ok report =>
      simp only [(runInspect_of_ok hscan).1, true_iff]
      cases hread : files.read a.file with
      | error cause =>
        rw [scanFile_of_read_eq_error hread] at hscan
        cases hscan
      | ok data =>
        rw [scanFile_of_read_eq_ok hread] at hscan
        exact ⟨data, rfl, report, hscan⟩
    | error e =>
      simp only [runInspect_of_error hscan, reduceCtorEq, false_iff, not_exists, not_and]
      intro data hread report hok
      rw [scanFile_of_read_eq_ok hread, hok] at hscan
      cases hscan

variable {settings : Settings} {data : ByteArray}
  (hload : (loadSettings files configHome invocation.config).2 = .ok settings)
  (hread : files.read a.file = .ok data)

include hload hread

/-- What an inspection with `settings` comes to: the lines of the `report` of the scan, or its error
`e`. -/
lemma run_inspect_eq :
    (∀ report, (scanInto files data (scanMode settings.inspect a)).result = .ok report →
      (run files configHome invocation).stdout =
        String.join (report.outcomes.map fun outcome =>
          outcome.line (scanMode settings.inspect a) ++ "\n") ++
        (scanMode settings.inspect a).closing) ∧
    ∀ e, (scanInto files data (scanMode settings.inspect a)).result = .error e →
      (run files configHome invocation).failure =
        some (.bundle (some ("Failed to read bundle " ++ a.file)) e) := by
  have hrun := run_of_settings (Prod.ext rfl hload)
  rw [hrun, hcommand, ← scanFile_of_read_eq_ok hread]
  refine ⟨fun report hok => ?_, fun e herror => runInspect_of_error herror⟩
  rw [← join_reportLines]
  exact (runInspect_of_ok hok).2

end Inspections

/-- What the `report` of a scan says is found from the records, in the order of the table.

**Proof sketch.** Without a header there is no report. With one the longest row decides unless a
payload cannot be written (`scanInto_leaves`), and a result without a fault is that of a row that
fills the data (`tiles_of_recordsResult`). -/
private lemma exists_of_scanInto_eq_ok {data : ByteArray} {mode : ScanMode} {report : ScanReport}
    (h : (scanInto files data mode).result = .ok report) : ∃ document offset payloads,
      readManifest data = .ok (document, offset) ∧
      payloads.length = document.partitions.length ∧ Record.Tiles data offset payloads .empty ∧
      report.outcomes = List.zipWith Outcome.classify document.partitions payloads := by
  cases hmanifest : readManifest data with
  | error e => cases (scanInto_of_readManifest_eq_error files hmanifest mode).2.symm.trans h
  | ok header =>
    obtain ⟨document, offset⟩ := header
    obtain ⟨payloads, hlongest⟩ := Record.exists_longest data offset document.partitions.length
    rcases scanInto_leaves files hmanifest hlongest mode with
      ⟨-, path, cause, hwrite⟩ | ⟨hresult, -⟩
    · cases hwrite.symm.trans h
    · have hreport := hresult.symm.trans h
      obtain ⟨hlen, htiles⟩ := tiles_of_recordsResult hmanifest hlongest hreport
      obtain ⟨-, rfl⟩ := recordsResult_eq_ok_iff.1 hreport
      exact ⟨document, offset, payloads, rfl, hlen, htiles, rfl⟩

/-- A scan of one complete record for each entry fails only if a payload cannot be written: there is
no fault in the records, so only the writing is left (`scanInto_leaves`). -/
private lemma scanInto_of_tiles {data : ByteArray} {document : ManifestDocument} {offset : Nat}
    {payloads : List ByteArray} (hmanifest : readManifest data = .ok (document, offset))
    (hlen : payloads.length = document.partitions.length)
    (htiles : Record.Tiles data offset payloads .empty) (files : FileSystem) (mode : ScanMode) :
    (∃ report, (scanInto files data mode).result = .ok report) ∨
      mode ≠ .summary ∧
        ∃ path cause, (scanInto files data mode).result = .error (.write path cause) := by
  rcases scanInto_leaves files hmanifest (htiles.longest hlen) mode with hwrite | ⟨hresult, -⟩
  · exact .inr hwrite
  · obtain ⟨length, hzero, -, rfl⟩ := readManifest_eq_ok_iff.1 hmanifest
    obtain ⟨⟨hlt, -⟩, -⟩ := Bytes.firstZero_eq_some_iff.1 hzero
    have hend := htiles.size_eq hlt
    rw [ByteArray.size_empty, Nat.add_zero] at hend
    have hfault : structuralFault data (document.partitions.map (·.name)) (length + 1) payloads =
        none := structuralFault_eq_none (by rw [hlen, List.length_map]) hend
    exact .inl ⟨_, hresult.trans (recordsResult_eq_ok_iff.2 ⟨hfault, rfl⟩)⟩

/-- **How a run ends.** A run `r` that fails has printed nothing. The commands that write nothing
leave the `files` as they are, and an inspection that writes does if it fails early: for the
settings, for its input, or for the header.

If the `selected` settings cannot be read or are refused, every command fails for that, before it
has told or done anything else; and no command fails for the settings otherwise.

An inspection succeeds exactly if there are settings, its input can be read and the scan succeeds in
the `mode` that they ask for. It has then printed one line for each entry, in the order of the
table, and one more if all payloads were put together. If there is a complete record for each entry
and nothing behind them, the only fault is that a payload cannot be written: sizes and digests that
do not fit are none.

**Proof sketch.** The parts are `silent_run`, `files_run`, `run_of_settings_error`,
`exists_of_run_config`, `run_inspect_failure_eq_none_iff` and `run_inspect_eq`. What is printed is
found by `exists_of_scanInto_eq_ok`, and the last part is `scanInto_of_tiles`. -/
theorem run_outcome (files : FileSystem) (configHome : Option String) (invocation : Invocation) :
    let r := run files configHome invocation
    let selected := selectedSettings files configHome invocation.config
    let loaded := (loadSettings files configHome invocation.config).2
    (r.failure.isSome → r.stdout = "") ∧
    (∀ file, invocation.command = .manifest file → r.files = files) ∧
    (∀ a, invocation.command = .inspect a →
      (a.extract = false → a.full = false → r.files = files) ∧
      ∀ context e, r.failure = some (.bundle context e) → e.isEarly = true → r.files = files) ∧
    (∀ path, selected = some path →
      (∀ cause, files.readText path = .error cause →
        r = .failed (settingsLog path) files (.bundle none (.config (.unreadable path cause)))) ∧
      ∀ text fault, files.readText path = .ok text → Settings.ofText text = .error fault →
        r = .failed (settingsLog path) files (.bundle none (.config fault))) ∧
    (∀ context fault, r.failure = some (.bundle context (.config fault)) →
      ∃ path, selected = some path ∧ ((∃ cause, files.readText path = .error cause) ∨
        ∃ text, files.readText path = .ok text ∧ Settings.ofText text = .error fault)) ∧
    ∀ a, invocation.command = .inspect a →
      (r.failure = none ↔ ∃ settings data report, loaded = .ok settings ∧
        files.read a.file = .ok data ∧
        (scanInto files data (scanMode settings.inspect a)).result = .ok report) ∧
      ∀ settings data, loaded = .ok settings → files.read a.file = .ok data →
        let mode := scanMode settings.inspect a
        (∀ report, (scanInto files data mode).result = .ok report →
          r.stdout = String.join (report.outcomes.map fun outcome => outcome.line mode ++ "\n") ++
              mode.closing ∧
          ∃ document offset payloads, readManifest data = .ok (document, offset) ∧
            payloads.length = document.partitions.length ∧
            Record.Tiles data offset payloads .empty ∧
            report.outcomes = List.zipWith Outcome.classify document.partitions payloads) ∧
        ∀ document offset payloads, readManifest data = .ok (document, offset) →
          payloads.length = document.partitions.length →
          Record.Tiles data offset payloads .empty →
          r.failure = none ∨
            mode ≠ .summary ∧ ∃ context path cause,
              r.failure = some (.bundle context (.write path cause)) := by
  intro r selected loaded
  refine ⟨silent_run files configHome invocation,
    fun file hcommand => files_run (.inl ⟨file, hcommand⟩),
    fun a hcommand => ⟨fun hextract hfull => files_run (.inr ⟨a, hcommand, .inl ⟨hextract, hfull⟩⟩),
      fun context e hfailure hearly =>
        files_run (.inr ⟨a, hcommand, .inr ⟨context, e, hfailure, hearly⟩⟩)⟩,
    fun path hpath => ⟨fun cause hcause => ?_, fun text fault htext hfault => ?_⟩,
    fun context fault hfailure => ?_, fun a hcommand => ⟨run_inspect_failure_eq_none_iff hcommand,
      fun settings data hload hread => ?_⟩⟩
  · exact run_of_settings_error hpath (Settings.ofFile_eq_error_iff.2 (.inl ⟨cause, hcause, rfl⟩))
  · exact run_of_settings_error hpath
      (Settings.ofFile_eq_error_iff.2 (.inr ⟨text, fault, htext, hfault, rfl⟩))
  · obtain ⟨path, hpath, hfile⟩ := exists_of_run_config hfailure
    refine ⟨path, hpath, ?_⟩
    rcases Settings.ofFile_eq_error_iff.1 hfile with
      ⟨cause, hcause, -⟩ | ⟨text, other, htext, hother, heq⟩
    · exact .inl ⟨cause, hcause⟩
    · obtain rfl := BundleError.config.inj heq
      exact .inr ⟨text, htext, hother⟩
  · intro mode
    obtain ⟨hstdout, hfailure⟩ := run_inspect_eq hcommand hload hread
    refine ⟨fun report hok => ⟨hstdout report hok, exists_of_scanInto_eq_ok hok⟩,
      fun document offset payloads hmanifest hlen htiles => ?_⟩
    rcases scanInto_of_tiles hmanifest hlen htiles files mode with
      ⟨report, hok⟩ | ⟨hmode, path, cause, hwrite⟩
    · exact .inl ((run_inspect_failure_eq_none_iff hcommand).2
        ⟨settings, data, report, hload, hread, hok⟩)
    · exact .inr ⟨hmode, _, path, cause, hfailure _ hwrite⟩

end FirmwareBundle
