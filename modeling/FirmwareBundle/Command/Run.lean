import FirmwareBundle.Command.Log
/-!
# Running commands

A command reads the settings, then does its work. If it fails it prints nothing, and its error says
what it was about to do.

## Main definitions

* `FirmwareBundle.loadSettings` — the settings of an explicit file, of the user's file, or the
  standard ones.
* `FirmwareBundle.CommandError` — why a command fails.
* `FirmwareBundle.CommandRun` — what a command told, printed and did.
* `FirmwareBundle.runBuild`, `FirmwareBundle.runInspect`, `FirmwareBundle.runManifest` — the
  commands.
* `FirmwareBundle.run` — an invocation.
-/

namespace FirmwareBundle

open CommandLine

/-! ## Settings -/

/-- The path of the user's settings in the directory `configHome`. -/
def userSettingsPath (configHome : String) : String :=
  Path.join (Path.join configHome "fwbundle") "config.toml"

/-- The settings in the file at `path`. -/
def Settings.ofFile (files : FileSystem) (path : String) : Except BundleError Settings :=
  match files.readText path with
  | .error cause => .error (.config (.unreadable path cause))
  | .ok text => (Settings.ofText text).mapError .config

/-- What is told before settings are read from the file at `path`. -/
def settingsLog (path : String) : List LogRecord :=
  [⟨.debug, "Loading configuration from " ++ path⟩]

/-- The settings: those of the file `explicit` if it is named, else those of the user's file in
`configHome` if there is one, else the standard ones. -/
def loadSettings (files : FileSystem) (configHome explicit : Option String) :
    List LogRecord × Except BundleError Settings :=
  match explicit with
  | some path => (settingsLog path, Settings.ofFile files path)
  | none =>
    match (configHome.map userSettingsPath).filter files.isFile with
    | some path => (settingsLog path, Settings.ofFile files path)
    | none => ([⟨.debug, "No configuration file found, using defaults"⟩], .ok {})

/-! ## Results -/

/-- Why a command fails: an operation on a bundle, or the reading of a file. The context says what
the command was about to do. -/
inductive CommandError where
  | bundle (context : Option String) (e : BundleError)
  | file (context : String) (cause : IoFault)

/-- What is told to the user: the context, the error, and the fault below it. For a text that is not
well formed the words are `malformed`. -/
def CommandError.text (malformed : String) : CommandError → String
  | .bundle context e => ": ".intercalate (context.toList ++ e.chain malformed)
  | .file context cause => ": ".intercalate [context, cause.text]

/-- What a command told (`log`) and printed (`stdout`), the `files` after it, and its error if it
failed. -/
structure CommandRun where
  log : List LogRecord
  stdout : String
  files : FileSystem
  failure : Option CommandError

/-- A command that told `log`, left `files` and failed with the error `e`. It printed nothing. -/
def CommandRun.failed (log : List LogRecord) (files : FileSystem) (e : CommandError) :
    CommandRun :=
  ⟨log, "", files, some e⟩

/-- A command that told `log`, left `files`, was carried out and printed `lines`. -/
def CommandRun.succeeded (log : List LogRecord) (files : FileSystem) (lines : List String) :
    CommandRun :=
  ⟨log, String.join (lines.map (· ++ "\n")), files, none⟩

/-- The command `r` with `log` told before it. -/
def CommandRun.after (log : List LogRecord) (r : CommandRun) : CommandRun :=
  { r with log := log ++ r.log }

/-! ## Packing -/

/-- The line that is printed for the entry `spec` of a new bundle. -/
def packedLine (spec : PartitionSpec) : String :=
  "📦 " ++ partitionColumns spec.name spec.payloadSize.toNat (spec.sha1.getD "")

/-- Packs the images that the arguments `a` name into a bundle. -/
def runBuild (files : FileSystem) (settings : Settings) (a : BuildArguments) : CommandRun :=
  let warning : List LogRecord :=
    if a.sources.toList.isEmpty then
      [⟨.warn, "No partition images given, writing a bundle without partitions"⟩]
    else []
  let builder : Builder :=
    { parameters := settings.manifest
      packing := if a.pack then .tight else .fixedSlot
      init := a.init
      cma := a.cma }
  let w := writeBundle files a.sources builder a.output
  let log := warning ++ writingLog a.output w
  match w.result with
  | .error e =>
    .failed log w.files (.bundle (some ("Failed to build bundle " ++ a.output)) e)
  | .ok manifest =>
    .succeeded log w.files
      (manifest.partitions.map packedLine ++ ["✅ Bundle written to " ++ a.output])

/-! ## Inspecting -/

/-- The mode that the arguments `a` ask for. Without a directory it is the working directory, and
without a file the one that `settings` name. -/
def scanMode (settings : InspectSettings) (a : InspectArguments) : ScanMode :=
  if a.extract then .extract (a.outputDir.getD ".")
  else if a.full then .concatenate (a.fullOutput.getD settings.fullImageName)
  else .summary

/-- The lines that are printed for a `report` in a `mode`. -/
def reportLines (mode : ScanMode) (report : ScanReport) : List String :=
  report.outcomes.map (Outcome.line mode) ++
    match mode with
    | .concatenate path => ["💾 Valid partitions written to " ++ path]
    | _ => []

/-- The warning at the end of a `report` that is not clean. -/
def reportWarnings (report : ScanReport) : List LogRecord :=
  if report.isClean then []
  else
    [⟨.warn, toString report.warnings.length ++ " of " ++ toString report.outcomes.length ++
      " partitions failed validation"⟩]

/-- What is told once the bundle at `path` is read. -/
def inputLog (files : FileSystem) (path : String) : List LogRecord :=
  match files.read path with
  | .ok data => [⟨.debug, "Scanning " ++ path ++ " (" ++ toString data.size ++ " bytes)"⟩]
  | .error _ => []

/-- Looks into the bundle that the arguments `a` name. -/
def runInspect (files : FileSystem) (settings : Settings) (a : InspectArguments) : CommandRun :=
  let mode := scanMode settings.inspect a
  let s := scanFile files a.file mode
  let log : List LogRecord :=
    ⟨.debug, "Inspecting " ++ a.file ++ " in " ++ mode.text ++ " mode"⟩ ::
      inputLog files a.file ++ scanLog mode 0 s.events
  match s.result with
  | .error e => .failed log s.sink (.bundle (some ("Failed to read bundle " ++ a.file)) e)
  | .ok report => .succeeded (log ++ reportWarnings report) s.sink (reportLines mode report)

/-! ## Printing a header -/

/-- Prints the header of the bundle at the path `file`. -/
def runManifest (files : FileSystem) (file : String) : CommandRun :=
  match files.read file with
  | .error cause => .failed [] files (.file ("Failed to read " ++ file) cause)
  | .ok data =>
    match readManifest data with
    | .error e => .failed [] files (.bundle (some ("Failed to parse manifest of " ++ file)) e)
    | .ok (document, offset) =>
      let log := scanLog .summary 0 [.parsed document] ++
        [⟨.debug, document.shape.text ++ " manifest, records start at offset " ++
          Hex.prefixed offset⟩]
      .succeeded log files [document.toJson.pretty]

/-! ## Invocations -/

/-- Runs a command with `settings`. -/
def runCommand (files : FileSystem) (settings : Settings) : Command → CommandRun
  | .build a => runBuild files settings a
  | .inspect a => runInspect files settings a
  | .manifest file => runManifest files file

/-- Runs an `invocation`; `configHome` is the directory for the settings of users. A command is not
begun without settings. -/
def run (files : FileSystem) (configHome : Option String) (invocation : Invocation) : CommandRun :=
  match loadSettings files configHome invocation.config with
  | (log, .error e) => .failed log files (.bundle none e)
  | (log, .ok settings) => (runCommand files settings invocation.command).after log

/-- The lines of `r` that the level of the `invocation` lets through. -/
def shownLog (invocation : Invocation) (r : CommandRun) : List String :=
  LogRecord.shown invocation.level r.log

end FirmwareBundle
