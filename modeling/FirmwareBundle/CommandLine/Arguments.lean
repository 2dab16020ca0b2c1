/-!
# Reading arguments

Arguments are read from left to right. An option may have its value in the same word or in the next
one, short options may share a word, and two dashes alone end the options. A value is looked at when
the next option begins or when the arguments end, so of two mistakes the later one may be told.

## Main definitions

* `FirmwareBundle.CommandLine.UsageFault` — why arguments are not carried out.
* `FirmwareBundle.CommandLine.OptionSpec` — an option and what it takes.
* `FirmwareBundle.CommandLine.Level` — the options, the positional argument and the commands that
  are known at one place.
* `FirmwareBundle.CommandLine.Level.read` — what is given, up to the name of a command.
-/

namespace FirmwareBundle.CommandLine

/-! ## Usage -/

/-- Why arguments are not carried out. The last four are no mistakes, or only that nothing was asked
for. -/
inductive UsageFault where
  | missingRequiredArgument
  | unknownArgument
  | argumentConflict
  | invalidValue
  | invalidSubcommand
  | tooManyValues
  | missingSubcommand
  | displayHelpOnMissing
  | displayHelp
  | displayVersion
  deriving DecidableEq

/-- Whether help or the version was asked for. -/
def UsageFault.isRequest : UsageFault → Bool
  | .displayHelp | .displayVersion => true
  | _ => false

/-! ## Options -/

/-- What an option does: it is set once, counted, asks for help or the version, or takes a value,
which may be empty unless it is a path. -/
inductive OptionKind where
  | flag
  | counter
  | help
  | version
  | text
  | path
  deriving DecidableEq

/-- Whether options of a kind take a value. -/
def OptionKind.takesValue : OptionKind → Bool
  | .text | .path => true
  | _ => false

/-- An option with its long name and perhaps a letter. -/
structure OptionSpec where
  name : String
  letter : Option Char
  kind : OptionKind
  deriving DecidableEq

/-- What is known at one place: options, perhaps a positional argument, and the names of commands.
-/
structure Level where
  options : List OptionSpec
  positional : Option OptionSpec := none
  commands : List String := []

/-- The name of the command that explains the others. -/
def helpCommand : String := "help"

/-- What was given so far, in order: names of options with their values, which are empty for options
without one. -/
abbrev Given := List (String × String)

/-- Whether the option `name` was given. -/
def Given.has (given : Given) (name : String) : Bool :=
  given.any (·.1 == name)

/-- The first value that was given for the option `name`. -/
def Given.value? (given : Given) (name : String) : Option String :=
  given.lookup name

/-- How often the option `name` was given. -/
def Given.count (given : Given) (name : String) : Nat :=
  given.countP (·.1 == name)

/-- Notes the option `spec` with its `value`. All but counters may be given once, and a path is not
empty. -/
def Given.note (given : Given) (spec : OptionSpec) (value : String) : Except UsageFault Given :=
  if spec.kind ≠ .counter ∧ given.has spec.name then .error .argumentConflict
  else if spec.kind = .path ∧ value = "" then .error .invalidValue
  else .ok (given ++ [(spec.name, value)])

/-! ## Progress -/

/-- What was read so far: what is noted, an option that is not noted yet, with its value if it has
one, and whether the positional argument was given. -/
structure Progress where
  given : Given := []
  pending : Option (OptionSpec × Option String) := none
  positionalGiven : Bool := false

namespace Progress

/-- Whether the next word is the value of an option. -/
def isAwaiting (p : Progress) : Bool :=
  match p.pending with
  | some (_, none) => true
  | _ => false

/-- Notes the option that is not noted yet. -/
def settle (p : Progress) : Except UsageFault Progress :=
  match p.pending with
  | none => .ok p
  | some (_, none) => .error .invalidValue
  | some (spec, some value) => do
    let given ← p.given.note spec value
    pure { p with given, pending := none }

/-- Notes the option `spec`, whose `value` is at hand. -/
def note (p : Progress) (spec : OptionSpec) (value : String) : Except UsageFault Progress := do
  let p ← p.settle
  let given ← p.given.note spec value
  pure { p with given }

/-- Carries out the option `spec`, which takes no value. -/
def flag (p : Progress) (spec : OptionSpec) : Except UsageFault Progress := do
  let p ← p.settle
  match spec.kind with
  | .help => .error .displayHelp
  | .version => .error .displayVersion
  | _ => p.note spec ""

/-- Begins the option `spec`, whose value is the next word. -/
def await (p : Progress) (spec : OptionSpec) : Except UsageFault Progress := do
  let p ← p.settle
  pure { p with pending := some (spec, none) }

end Progress

namespace Level

/-- Reads the letters that share a word. A letter that takes a value takes the rest of the word,
without an equals sign before it, or else the next word. -/
def letters (level : Level) : Progress → List Char → Except UsageFault Progress
  | p, [] => .ok p
  | p, c :: rest =>
    match level.options.find? (·.letter == some c) with
    | none => .error .unknownArgument
    | some spec =>
      if spec.kind.takesValue then
        match rest with
        | [] => p.await spec
        | '=' :: value => p.note spec (String.ofList value)
        | value => p.note spec (String.ofList value)
      else do
        let p ← p.flag spec
        letters level p rest

/-- Reads the option with the long name `name`, and with the `value` behind an equals sign if there
is one. -/
def long (level : Level) (p : Progress) (name : String) (value : Option String) :
    Except UsageFault Progress :=
  match level.options.find? (·.name == name), value with
  | none, _ => .error .unknownArgument
  | some spec, some value =>
    if spec.kind.takesValue then p.note spec value else .error .tooManyValues
  | some spec, none => if spec.kind.takesValue then p.await spec else p.flag spec

/-- Splits `word` at its first equals sign. -/
def splitValue (word : List Char) : String × Option String :=
  let name := word.takeWhile (· != '=')
  (String.ofList name,
    match word.drop name.length with
    | [] => none
    | _ :: value => some (String.ofList value))

/-- Takes the word `arg` as the positional argument. Where there is none, a word in the place of a
command is told apart from others. -/
def word (level : Level) (p : Progress) (trailing : Bool) (arg : String) :
    Except UsageFault Progress :=
  match level.positional with
  | some spec =>
    if p.positionalGiven then .error .unknownArgument
    else do
      let p ← p.settle
      pure { p with pending := some (spec, some arg), positionalGiven := true }
  | none =>
    if level.commands.isEmpty ∨ (trailing ∧ (arg ∈ level.commands ∨ arg = helpCommand)) then
      .error .unknownArgument
    else .error .invalidSubcommand

/-- Answers the words behind the command that explains the others: one known command or none. -/
def explain {α : Type} (level : Level) : List String → Except UsageFault α
  | [] => .error .displayHelp
  | [name] =>
    if name ∈ level.commands ∨ name = helpCommand then .error .displayHelp
    else .error .invalidSubcommand
  | _ => .error .invalidSubcommand

/-- Reads arguments up to the name of a command, which is given back with the arguments behind it.
With `trailing` no options follow: two dashes stood before. -/
def read (level : Level) :
    (trailing : Bool) → Progress → List String →
    Except UsageFault (Progress × Option (String × List String))
  | _, p, [] => .ok (p, none)
  | true, p, arg :: args => do
    let p ← level.word p true arg
    level.read true p args
  | false, p, arg :: args =>
    if ¬ p.isAwaiting ∧ arg ∈ level.commands then .ok (p, some (arg, args))
    else if ¬ p.isAwaiting ∧ ¬ level.commands.isEmpty ∧ arg = helpCommand then level.explain args
    else
      match arg.toList with
      | ['-', '-'] => level.read true p args
      | '-' :: '-' :: option => do
        let p ← level.long p (splitValue option).1 (splitValue option).2
        level.read false p args
      | '-' :: c :: rest => do
        let p ← level.letters p (c :: rest)
        level.read false p args
      | _ =>
        match p.pending with
        | some (spec, none) => level.read false { p with pending := some (spec, some arg) } args
        | _ => do
          let p ← level.word p false arg
          level.read false p args

end Level

end FirmwareBundle.CommandLine
