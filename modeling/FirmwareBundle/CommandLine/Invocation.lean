import FirmwareBundle.CommandLine.Arguments
import FirmwareBundle.Partition.Kind
/-!
# Invocations

There are three commands, each with options of its own; a few options may stand before the command
or behind it.

## Main definitions

* `FirmwareBundle.CommandLine.Command` — the commands with their arguments.
* `FirmwareBundle.CommandLine.Invocation` — a command and the options that all commands have.
* `FirmwareBundle.CommandLine.Invocation.ofArguments` — reads the arguments of the program.
* `FirmwareBundle.CommandLine.LogLevel` — how much is told during a command.
-/

namespace FirmwareBundle.CommandLine

/-! ## Commands -/

/-- The arguments for packing images into a bundle. -/
structure BuildArguments where
  sources : Slots String
  output : String
  cma : String
  init : Bool
  pack : Bool
  deriving DecidableEq

/-- The arguments for looking into a bundle. -/
structure InspectArguments where
  file : String
  extract : Bool
  full : Bool
  outputDir : Option String
  fullOutput : Option String
  deriving DecidableEq

/-- The commands. -/
inductive Command where
  | build (arguments : BuildArguments)
  | inspect (arguments : InspectArguments)
  | manifest (file : String)
  deriving DecidableEq

/-- A `command`, and the options that all commands have. -/
structure Invocation where
  verbose : Nat
  quiet : Bool
  config : Option String
  command : Command
  deriving DecidableEq

/-! ## Logging -/

/-- How much is told during a command: everything up to a level. -/
inductive LogLevel where
  | error
  | warn
  | info
  | debug
  | trace
  deriving DecidableEq

namespace LogLevel

/-- The place of a level: the higher, the more is told. -/
def rank : LogLevel → Nat
  | .error => 1
  | .warn => 2
  | .info => 3
  | .debug => 4
  | .trace => 5

/-- The name of a level. -/
def name : LogLevel → String
  | .error => "ERROR"
  | .warn => "WARN"
  | .info => "INFO"
  | .debug => "DEBUG"
  | .trace => "TRACE"

/-- The level that the options ask for. A quiet command tells only errors, whatever `verbose` is. -/
def ofOptions (verbose : Nat) (quiet : Bool) : LogLevel :=
  if quiet then .error
  else
    match verbose with
    | 0 => .info
    | 1 => .debug
    | _ => .trace

end LogLevel

/-- The level that an `invocation` asks for. -/
def Invocation.level (invocation : Invocation) : LogLevel :=
  .ofOptions invocation.verbose invocation.quiet

/-! ## Levels of arguments -/

/-- The options that all commands have. -/
def globalOptions : List OptionSpec :=
  [⟨"verbose", some 'v', .counter⟩, ⟨"quiet", some 'q', .flag⟩, ⟨"config", none, .path⟩,
    ⟨"help", some 'h', .help⟩]

/-- The positional argument of two of the commands. -/
def fileArgument : OptionSpec :=
  ⟨"file", none, .path⟩

/-- What may stand before the command. -/
def rootLevel : Level :=
  { options := globalOptions ++ [⟨"version", some 'V', .version⟩]
    commands := ["build", "inspect", "manifest"] }

/-- What may stand behind the command for packing. -/
def buildLevel : Level :=
  { options := globalOptions ++
      [⟨"boot", some 'b', .path⟩, ⟨"kernel", some 'k', .path⟩, ⟨"rootfs", some 'r', .path⟩,
        ⟨"output", some 'o', .path⟩, ⟨"cma", some 'c', .text⟩, ⟨"init", some 'i', .flag⟩,
        ⟨"pack", some 'p', .flag⟩] }

/-- What may stand behind the command for looking into a bundle. -/
def inspectLevel : Level :=
  { options := globalOptions ++
      [⟨"extract", some 'e', .flag⟩, ⟨"full", some 'f', .flag⟩, ⟨"output-dir", some 'd', .path⟩,
        ⟨"full-output", none, .path⟩]
    positional := some fileArgument }

/-- What may stand behind the command for printing a header. -/
def manifestLevel : Level :=
  { options := globalOptions, positional := some fileArgument }

/-! ## Commands from what is given -/

/-- The value of the argument `name`, which must be given. -/
def require (given : Given) (name : String) : Except UsageFault String :=
  match given.value? name with
  | some value => .ok value
  | none => .error .missingRequiredArgument

/-- The command for packing from what was `given`. -/
def buildOf (given : Given) : Except UsageFault Command := do
  let output ← require given "output"
  pure (.build {
    sources := ⟨given.value? "boot", given.value? "kernel", given.value? "rootfs"⟩
    output
    cma := (given.value? "cma").getD ""
    init := given.has "init"
    pack := given.has "pack" })

/-- Whether `argument` lacks the `flag` that it needs. A flag is not asked for if it is ruled out by
the flag `other`. -/
def lacks (given : Given) (argument flag other : String) : Bool :=
  given.has argument && !given.has flag && !given.has other

/-- The command for looking into a bundle from what was `given`. Its two flags exclude each other,
and a place to write to needs the flag that writes there. -/
def inspectOf (given : Given) : Except UsageFault Command := do
  if given.has "extract" ∧ given.has "full" then throw .argumentConflict
  let file ← require given "file"
  if lacks given "output-dir" "extract" "full" ∨ lacks given "full-output" "full" "extract" then
    throw .missingRequiredArgument
  pure (.inspect {
    file
    extract := given.has "extract"
    full := given.has "full"
    outputDir := given.value? "output-dir"
    fullOutput := given.value? "full-output" })

/-- The command for printing a header from what was `given`. -/
def manifestOf (given : Given) : Except UsageFault Command := do
  pure (.manifest (← require given "file"))

/-! ## Invocations from arguments -/

/-- Reads all arguments `args` of a `level` that has no commands. -/
def readAll (level : Level) (args : List String) : Except UsageFault Given := do
  let (p, _) ← level.read false {} args
  pure (← p.settle).given

/-- Reads the command `name` and the arguments `args` behind its name. -/
def readCommand (name : String) (args : List String) : Except UsageFault (Given × Command) := do
  let (level, ofGiven) :=
    match name with
    | "build" => (buildLevel, buildOf)
    | "inspect" => (inspectLevel, inspectOf)
    | _ => (manifestLevel, manifestOf)
  let given ← readAll level args
  pure (given, ← ofGiven given)

/-- The greatest count that is kept. -/
def maxVerbose : Nat := 255

/-- How often the option for more words was given. Behind the command it counts anew, and then not
what stood `before`. -/
def verboseOf (before behind : Given) : Nat :=
  min maxVerbose (if behind.has "verbose" then behind.count "verbose" else before.count "verbose")

/-- Reads the arguments `args` of the program, without its name. -/
def Invocation.ofArguments (args : List String) : Except UsageFault Invocation := do
  let (p, next) ← rootLevel.read false {} args
  match next with
  | none =>
    let p ← p.settle
    throw (if p.given.isEmpty then .displayHelpOnMissing else .missingSubcommand)
  | some (name, rest) =>
    let (behind, command) ← readCommand name rest
    let before := (← p.settle).given
    pure {
      verbose := verboseOf before behind
      quiet := before.has "quiet" || behind.has "quiet"
      config := (behind.value? "config").or (before.value? "config")
      command }

end FirmwareBundle.CommandLine
