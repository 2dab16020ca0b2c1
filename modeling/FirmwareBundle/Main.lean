import FirmwareBundle.Command.Run
/-!
# The program

The files that an invocation can touch are read into a file system of their own, the invocation is
run on that, and the files that changed are written back.

## Main definitions

* `FirmwareBundle.Program.snapshot` — the files that an invocation can touch.
* `FirmwareBundle.Program.writeBack` — the files that changed.
* `main` — the program.
-/

namespace FirmwareBundle.Program

open CommandLine

/-! ## Reading files -/

/-- What is at a `place` in a directory. A file is read only if its `contents` are wanted. -/
def probe (place : Location) (contents : Bool) : IO (Option FileEntry) := do
  let path := Path.ofPlace place
  try
    IO.FS.withFile path .read fun handle => discard (handle.read 1)
    let data ← if contents then IO.FS.readBinFile path else pure .empty
    pure (some (.file data))
  catch
    | .inappropriateType .. => pure (some .directory)
    | _ => pure none

/-- The `tree` with what is on the way to a `place`, and there. -/
def addPlace (contents : Bool) (tree : FileTree) (place : Location) : IO FileTree := do
  let mut tree := tree
  for n in List.range place.length do
    let here := place.take (n + 1)
    if tree.get? here.dropLast == some .directory then
      let last := n + 1 == place.length
      if last || (tree.get? here).isNone then
        match ← probe here (contents && last) with
        | some entry => tree := tree.put here entry
        | none => pure ()
  pure tree

/-- The paths that a command reads. -/
def inputs : Command → List String
  | .build a => a.sources.toList.map (·.2)
  | .inspect a => [a.file]
  | .manifest file => [file]

/-- The paths that a mode writes to for the bundle `data`. -/
def targets (data : ByteArray) : ScanMode → List String
  | .summary => []
  | .extract dir =>
    match readManifest data with
    | .ok (document, _) => dir :: document.partitions.map fun spec => Path.join dir spec.name
    | .error _ => [dir]
  | .concatenate path => [path]

/-- The paths that a command writes to, or in which it writes. -/
def outputs (files : FileSystem) (settings : Settings) : Command → List String
  | .build a => [a.output, FileSystem.stagingDirectory a.output]
  | .inspect a =>
    match files.read a.file with
    | .ok data => targets data (scanMode settings.inspect a)
    | .error _ => []
  | .manifest _ => []

/-- The file system `files` with what is at the places that `paths` name. -/
def addPaths (contents : Bool) (files : FileSystem) (paths : List String) : IO FileSystem := do
  let mut tree := files.tree
  for path in paths do
    let place := Path.place files.workingDirectory path
    unless (tree.get? place).isSome do
      tree ← addPlace contents tree place
  pure { files with tree }

/-- The files that an `invocation` can touch. -/
def snapshot (origin : Location) (suffix : String) (configHome : Option String)
    (invocation : Invocation) : IO FileSystem := do
  let files : FileSystem :=
    { tree := ← addPlace false {} origin, workingDirectory := origin, suffixes := [suffix] }
  let settingsPaths := invocation.config.toList ++ (configHome.map userSettingsPath).toList
  let files ← addPaths true files (settingsPaths ++ inputs invocation.command)
  match (loadSettings files configHome invocation.config).2 with
  | .ok settings => addPaths false files (outputs files settings invocation.command)
  | .error _ => pure files

/-! ## Writing files -/

/-- Writes `data` aside, under a name with `suffix`, and moves it to its `place`. -/
def writeFile (suffix : String) (place : Location) (data : ByteArray) : IO Unit := do
  let aside := Path.ofPlace (place.dropLast ++ [FileSystem.stagingName ++ suffix])
  IO.FS.writeBinFile aside data
  IO.FS.rename aside (Path.ofPlace place)

/-- Writes the files of `after` that differ from what was there `before`. -/
def writeBack (suffix : String) (before after : FileTree) : IO Unit := do
  for (place, entry) in after.entries.reverse do
    match entry with
    | .file data =>
      if before.get? place != some entry then writeFile suffix place data
    | .directory => pure ()

/-! ## The program -/

/-- The name and the version of the program. -/
def versionText : String := "fwbundle 0.1.0"

/-- How the program is used. -/
def usageText : String :=
  "Usage: fwbundle [-v] [-q] [--config FILE] <COMMAND>\n\n" ++
  "  build -o FILE [-b FILE] [-k FILE] [-r FILE] [-c CMA] [-i] [-p]\n" ++
  "  inspect FILE [-e [-d DIR] | -f [--full-output FILE]]\n" ++
  "  manifest FILE\n"

/-- What is told where a text is not well formed. -/
def malformedText : String := "not a well-formed document"

/-- The directory for the settings of users. -/
def findConfigHome : IO (Option String) := do
  match (← IO.getEnv "XDG_CONFIG_HOME").filter Path.isAbsolute with
  | some dir => pure (some dir)
  | none => pure ((← IO.getEnv "HOME").map fun home => Path.join home ".config")

/-- Answers arguments that are not carried out, because of `fault`. -/
def answerUsage (fault : UsageFault) : IO UInt32 := do
  match fault with
  | .displayVersion => IO.println versionText
  | .displayHelp => IO.print usageText
  | _ => IO.eprint usageText
  pure (if fault.isRequest then 0 else 2)

/-- Carries out an `invocation`, and gives the exit code. -/
def carryOut (invocation : Invocation) : IO UInt32 := do
  let origin := Path.place [] (← IO.currentDir).toString
  let suffix := toString (← IO.rand 100000 999999)
  let configHome ← findConfigHome
  let files ← snapshot origin suffix configHome invocation
  let r := run files configHome invocation
  for line in shownLog invocation r do
    IO.eprintln line
  writeBack suffix files.tree r.files.tree
  IO.print r.stdout
  match r.failure with
  | none => pure 0
  | some e =>
    IO.eprintln ("❌ " ++ e.text malformedText)
    pure 1

end FirmwareBundle.Program

/-- Reads the arguments and carries them out. -/
def main (args : List String) : IO UInt32 :=
  match FirmwareBundle.CommandLine.Invocation.ofArguments args with
  | .error fault => FirmwareBundle.Program.answerUsage fault
  | .ok invocation => FirmwareBundle.Program.carryOut invocation
