import FirmwareBundle.Command.Run
import FirmwareBundle.Proofs.ArgumentReading
/-!
# Arguments for looking into a bundle

The arguments for looking into a bundle may name a place to write to, a directory or a file.
Whatever way they are spelled, the mode of the scan is the one whose flag is given, with the place
that is given for it. A place is passed over only where its flag is ruled out, that is, where the
other flag is given.

## Main definitions

* `FirmwareBundle.CommandLine.SpellsInspect` — the spellings of arguments for looking into a bundle.

## Main results

* `FirmwareBundle.CommandLine.ofArguments_eq_ok_iff`,
  `FirmwareBundle.CommandLine.exists_ofArguments_iff` — the arguments that are accepted.
* `FirmwareBundle.CommandLine.told_of_spellsInspect` — what is spelled is what the command is told.
* `FirmwareBundle.CommandLine.scanMode_of_ofArguments` — the mode that is asked for.
* `FirmwareBundle.CommandLine.not_forall_place_needs_flag` — places that are passed over.
-/

namespace FirmwareBundle.CommandLine

/-! ## Levels -/

/-- What may stand before the command, `rootLevel`, is well-formed. -/
private lemma wellFormed_rootLevel : rootLevel.WellFormed where
  names := by decide
  letters := by decide
  spellable := by decide
  positional := nofun
  commands := by decide

/-- What may stand behind the command for looking into a bundle, `inspectLevel`, is well-formed. -/
private lemma wellFormed_inspectLevel : inspectLevel.WellFormed where
  names := by decide
  letters := by decide
  spellable := by decide
  positional := by
    rintro spec h
    obtain rfl := Option.some.inj h
    exact ⟨by decide, rfl⟩
  commands := nofun

/-- What may stand behind this command may be given once, but for `"verbose"`. -/
private lemma kind_ne_counter_of_knows {spec : OptionSpec} (h : inspectLevel.Knows spec)
    (hname : spec.name ≠ "verbose") : spec.kind ≠ .counter := by
  rcases h with hmem | hspec
  · have hoptions :
        ∀ spec ∈ inspectLevel.options, spec.name ≠ "verbose" → spec.kind ≠ .counter := by
      decide
    exact hoptions spec hmem hname
  · obtain rfl := Option.some.inj hspec
    decide

/-- The arguments `args` spell the command for looking into a bundle: options of all commands before
its name, and then, whatever these are, the `items` behind it. -/
def SpellsInspect (args : List String) (items : List Item) : Prop :=
  ∃ before behind, rootLevel.Spelled args before (some ("inspect", behind)) ∧
    inspectLevel.Spelled behind items none

/-! ## Arguments that are accepted -/

section OfArguments

variable {args rest : List String} {name : String} {given : Given} {items before : List Item}
  {invocation : Invocation} {a : InspectArguments} {command : Command}

/-- **However a command is spelled**, the items `before` its `name` must be such as may be given
together, and the command must be read from the `rest` behind it. Both parts have a share in
`verbose`, `quiet` and `config`.

**Proof sketch.** The words up to `name` are read as what they spell (`Level.Spelled.read_eq`), and
what is noted in the end is `noteAll before`, which `noteAll_eq_ok_iff` describes. -/
theorem ofArguments_eq_ok_iff (hspelled : rootLevel.Spelled args before (some (name, rest))) :
    Invocation.ofArguments args = .ok invocation ↔
      Admissible before ∧ ∃ behind command, readCommand name rest = .ok (behind, command) ∧
        invocation = {
          verbose := verboseOf (.ofItems before) behind
          quiet := (Given.ofItems before).has "quiet" || behind.has "quiet"
          config := (behind.value? "config").or ((Given.ofItems before).value? "config")
          command } := by
  obtain ⟨x, hx, hread⟩ := hspelled.read_eq wellFormed_rootLevel
  rw [Invocation.ofArguments, hread]
  cases x with
  | error e =>
    refine ⟨nofun, fun ⟨hadmissible, _⟩ => ?_⟩
    exact absurd (noteAll_eq_ok_iff.2 ⟨hadmissible, rfl⟩) (hx _)
  | ok p =>
    have hsettle := Level.Holds.settle_eq hx
    constructor
    · intro h
      obtain ⟨⟨behind, command⟩, hcommand, h⟩ := (bind_eq_ok_iff (x := readCommand name rest)).1 h
      obtain ⟨settled, hsettled, h⟩ := bind_eq_ok_iff.1 h
      rw [hsettle] at hsettled
      cases hnote : noteAll before with
      | error e =>
        rw [hnote] at hsettled
        cases hsettled
      | ok given =>
        obtain ⟨hadmissible, rfl⟩ := noteAll_eq_ok_iff.1 hnote
        rw [hnote] at hsettled
        obtain rfl := Except.ok.inj hsettled
        exact ⟨hadmissible, behind, command, hcommand, (Except.ok.inj h).symm⟩
    · rintro ⟨hadmissible, behind, command, hcommand, rfl⟩
      rw [noteAll_eq_ok_iff.2 ⟨hadmissible, rfl⟩] at hsettle
      exact (bind_eq_ok_iff (x := readCommand name rest)).2
        ⟨(behind, command), hcommand, bind_eq_ok_iff.2 ⟨_, hsettle, rfl⟩⟩

/-- Arguments that are accepted spell the name of a command: without one the reading fails. -/
private lemma exists_spelled_of_ofArguments (h : Invocation.ofArguments args = .ok invocation) :
    ∃ before name rest, rootLevel.Spelled args before (some (name, rest)) := by
  obtain ⟨⟨p, next⟩, hread, h⟩ := bind_eq_ok_iff.1 h
  cases next with
  | none =>
    obtain ⟨settled, -, h⟩ := bind_eq_ok_iff.1 h
    cases h
  | some next =>
    obtain ⟨⟨given, command⟩, -, h⟩ := bind_eq_ok_iff.1 h
    obtain ⟨settled, hsettle, -⟩ := bind_eq_ok_iff.1 h
    obtain ⟨before, hbefore⟩ := Level.exists_spelled_of_read_eq_ok wellFormed_rootLevel hread
      (Progress.of_settle_eq_ok hsettle).1
    exact ⟨before, _, _, hbefore⟩

/-- The command for looking into a bundle is read from what is `given` behind its name, and no other
command is told the same: the other two names give commands of other kinds. -/
lemma readCommand_eq_ok_inspect_iff : readCommand name rest = .ok (given, .inspect a) ↔
    name = "inspect" ∧ readAll inspectLevel rest = .ok given ∧
      inspectOf given = .ok (.inspect a) := by
  constructor
  · intro h
    unfold readCommand at h
    split at h
    rename_i level ofGiven hlevel
    obtain ⟨noted, hread, h⟩ := bind_eq_ok_iff.1 h
    obtain ⟨command, hcommand, h⟩ := bind_eq_ok_iff.1 h
    obtain ⟨rfl, rfl⟩ := Prod.mk.inj (Except.ok.inj h)
    split at hlevel
    · obtain ⟨rfl, rfl⟩ := Prod.mk.inj hlevel
      obtain ⟨output, -, hbuild⟩ := bind_eq_ok_iff.1 hcommand
      cases hbuild
    · obtain ⟨rfl, rfl⟩ := Prod.mk.inj hlevel
      exact ⟨rfl, hread, hcommand⟩
    · obtain ⟨rfl, rfl⟩ := Prod.mk.inj hlevel
      obtain ⟨file, -, hmanifest⟩ := bind_eq_ok_iff.1 hcommand
      cases hmanifest
  · rintro ⟨rfl, hread, hinspect⟩
    exact bind_eq_ok_iff.2 ⟨given, hread, bind_eq_ok_iff.2 ⟨_, hinspect, rfl⟩⟩

/-- The `argument` does not lack its `flag` if that is given, or the `other` one. -/
lemma not_lacks_iff {argument flag other : String} : ¬lacks given argument flag other ↔
    (given.has argument → given.has flag ∨ given.has other) := by
  rw [lacks]
  cases given.has argument <;> cases given.has flag <;> cases given.has other <;> simp

/-- **The command for looking into a bundle** is accepted with a `file` and at most one of its
flags, and a place needs the flag that writes there, or else the other one.

**Proof sketch.** The checks are made one after the other: for both flags, for the file, and for a
place that lacks its flag (`not_lacks_iff`). Each is one of the conditions. -/
theorem inspectOf_eq_ok_iff : inspectOf given = .ok command ↔
    ¬(given.has "extract" ∧ given.has "full") ∧
      (given.has "output-dir" → given.has "extract" ∨ given.has "full") ∧
      (given.has "full-output" → given.has "full" ∨ given.has "extract") ∧
      ∃ file, given.value? "file" = some file ∧ command = .inspect {
        file
        extract := given.has "extract"
        full := given.has "full"
        outputDir := given.value? "output-dir"
        fullOutput := given.value? "full-output" } := by
  rw [inspectOf]
  by_cases hboth : given.has "extract" ∧ given.has "full"
  · rw [if_pos hboth]
    exact ⟨nofun, fun h => absurd hboth h.1⟩
  · rw [if_neg hboth]
    cases hfile : given.value? "file" with
    | none => simp [require, hfile, bind, Except.bind]
    | some file =>
      simp only [require, hfile, bind, Except.bind]
      by_cases hlacks : lacks given "output-dir" "extract" "full" ∨
          lacks given "full-output" "full" "extract"
      · rw [if_pos hlacks]
        refine ⟨nofun, fun h => ?_⟩
        rcases hlacks with hdir | hpath
        · exact absurd hdir (not_lacks_iff.2 h.2.1)
        · exact absurd hpath (not_lacks_iff.2 h.2.2.1)
      · rw [if_neg hlacks]
        rw [not_or, not_lacks_iff, not_lacks_iff] at hlacks
        constructor
        · intro h
          exact ⟨hboth, hlacks.1, hlacks.2, file, rfl, (Except.ok.inj h).symm⟩
        · rintro ⟨-, -, -, found, hfound, rfl⟩
          obtain rfl := Option.some.inj hfound
          rfl

/-- However the command for looking into a bundle is spelled, it is accepted if the options `before`
and the `items` behind it may be given together, and then the latter decide what it is told. -/
theorem exists_ofArguments_iff (hbefore : rootLevel.Spelled args before (some ("inspect", rest)))
    (hbehind : inspectLevel.Spelled rest items none) :
    (∃ invocation, Invocation.ofArguments args = .ok invocation ∧
        invocation.command = .inspect a) ↔
      Admissible before ∧ Admissible items ∧ inspectOf (.ofItems items) = .ok (.inspect a) := by
  simp only [ofArguments_eq_ok_iff hbefore]
  constructor
  · rintro ⟨_, ⟨hadmissible, given, command, hcommand, rfl⟩, rfl⟩
    obtain ⟨-, hread, hinspect⟩ := readCommand_eq_ok_inspect_iff.1 hcommand
    obtain ⟨hitems, rfl⟩ := (hbehind.readAll_eq_ok_iff wellFormed_inspectLevel).1 hread
    exact ⟨hadmissible, hitems, hinspect⟩
  · rintro ⟨hadmissible, hitems, hinspect⟩
    have hread := (hbehind.readAll_eq_ok_iff wellFormed_inspectLevel).2 ⟨hitems, rfl⟩
    exact ⟨_, ⟨hadmissible, _, _, readCommand_eq_ok_inspect_iff.2 ⟨rfl, hread, hinspect⟩, rfl⟩, rfl⟩

/-- **What is spelled is what the command is told**: the flags of `a` are those that are given, and
its places the ones that are given for them.

**Proof sketch.** By `exists_ofArguments_iff` the items may be given together, and
`inspectOf_eq_ok_iff` says what `a` is. No item for a place may be repeated
(`kind_ne_counter_of_knows`), so its value is the one that is found
(`Admissible.value?_eq_some_iff`). -/
theorem told_of_spellsInspect (hspelled : SpellsInspect args items)
    (h : Invocation.ofArguments args = .ok invocation) (ha : invocation.command = .inspect a) :
    let given := Given.ofItems items
    a.extract = given.has "extract" ∧ a.full = given.has "full" ∧
      (∀ dir, a.outputDir = some dir ↔ ("output-dir", dir) ∈ given) ∧
      (∀ path, a.fullOutput = some path ↔ ("full-output", path) ∈ given) ∧
      a.outputDir.isSome = given.has "output-dir" ∧
      a.fullOutput.isSome = given.has "full-output" ∧
      ¬(a.extract ∧ a.full) ∧ (a.outputDir.isSome → a.extract ∨ a.full) ∧
      (a.fullOutput.isSome → a.full ∨ a.extract) := by
  obtain ⟨before, behind, hbefore, hbehind⟩ := hspelled
  obtain ⟨-, hadmissible, hinspect⟩ :=
    (exists_ofArguments_iff hbefore hbehind).1 ⟨invocation, h, ha⟩
  obtain ⟨hboth, hdir, hpath, file, -, heq⟩ := inspectOf_eq_ok_iff.1 hinspect
  obtain rfl := Command.inspect.inj heq
  have hvalue : ∀ name, name ≠ "verbose" → ∀ value,
      (Given.ofItems items).value? name = some value ↔ (name, value) ∈ Given.ofItems items :=
    fun name hname value => hadmissible.value?_eq_some_iff fun item hitem heq =>
      kind_ne_counter_of_knows (hbehind.known item hitem) (heq ▸ hname)
  refine ⟨rfl, rfl, hvalue _ (by decide), hvalue _ (by decide), Given.isSome_value? _ _,
    Given.isSome_value? _ _, hboth, ?_, ?_⟩
  · rwa [Given.isSome_value?]
  · rwa [Given.isSome_value?]

/-- Arguments that are accepted with the command for looking into a bundle spell it, with some
`items`. -/
private lemma exists_spellsInspect (h : Invocation.ofArguments args = .ok invocation)
    (ha : invocation.command = .inspect a) : ∃ items, SpellsInspect args items := by
  obtain ⟨before, name, behind, hbefore⟩ := exists_spelled_of_ofArguments h
  obtain ⟨-, given, command, hcommand, rfl⟩ := (ofArguments_eq_ok_iff hbefore).1 h
  obtain rfl : command = .inspect a := ha
  obtain ⟨rfl, hread, -⟩ := readCommand_eq_ok_inspect_iff.1 hcommand
  obtain ⟨items, hitems, -⟩ := (readAll_eq_ok_iff wellFormed_inspectLevel rfl).1 hread
  exact ⟨items, before, behind, hbefore, hitems⟩

end OfArguments

/-! ## The mode that is asked for -/

section ScanMode

variable {args : List String} {invocation : Invocation} {a : InspectArguments}
  {settings : InspectSettings}

/-- Files of their own are written with the first flag, `a.extract`, in the directory for them. -/
lemma scanMode_eq_extract_iff {dir : String} : scanMode settings a = .extract dir ↔
    a.extract ∧ (a.outputDir = some dir ∨ dir = "." ∧ ¬a.outputDir.isSome) := by
  rw [scanMode]
  cases a.extract with
  | false => cases a.full <;> simp
  | true => cases a.outputDir <;> simp [eq_comm]

/-- One file is written with the second flag, `a.full`, at the path for it, unless the first is
given. -/
lemma scanMode_eq_concatenate_iff {path : String} : scanMode settings a = .concatenate path ↔
    ¬a.extract ∧ a.full ∧
      (a.fullOutput = some path ∨ path = settings.fullImageName ∧ ¬a.fullOutput.isSome) := by
  rw [scanMode]
  cases a.extract with
  | true => simp
  | false =>
    cases a.full with
    | false => simp
    | true => cases a.fullOutput <;> simp [eq_comm]

/-- Nothing is written without `a.extract` or `a.full`. -/
lemma scanMode_eq_summary_iff : scanMode settings a = .summary ↔ ¬a.extract ∧ ¬a.full := by
  rw [scanMode]
  cases a.extract <;> cases a.full <;> simp

/-- **The mode that is asked for.** However the arguments `args` for looking into a bundle are
spelled, `a.extract` and `a.full` are not both set, and the mode is decided by what is given. With
the flag for files of their own it is that, in the directory that is given or else the one where
work is done; with the flag for one file it is that, with the path that is given or else the one in
the `settings`; and otherwise nothing is written, and then no place is given either. So a place that
is given is passed over in one case only: where the other flag is given in place of its own.

**Proof sketch.** There is a spelling (`exists_spellsInspect`), and whatever it is,
`told_of_spellsInspect` says what `a` is told. The modes are then those of
`scanMode_eq_extract_iff`, `scanMode_eq_concatenate_iff` and `scanMode_eq_summary_iff`. -/
theorem scanMode_of_ofArguments (h : Invocation.ofArguments args = .ok invocation)
    (ha : invocation.command = .inspect a) :
    (∃ items, SpellsInspect args items) ∧ ∀ items, SpellsInspect args items →
      let given := Given.ofItems items
      a.extract = given.has "extract" ∧ a.full = given.has "full" ∧
      (∀ dir, a.outputDir = some dir ↔ ("output-dir", dir) ∈ given) ∧
      (∀ path, a.fullOutput = some path ↔ ("full-output", path) ∈ given) ∧
      ¬(a.extract ∧ a.full) ∧ (a.outputDir.isSome → a.extract ∨ a.full) ∧
      (a.fullOutput.isSome → a.full ∨ a.extract) ∧
      ∀ settings : InspectSettings,
        (∀ dir, scanMode settings a = .extract dir ↔ given.has "extract" ∧
          (("output-dir", dir) ∈ given ∨ dir = "." ∧ ¬given.has "output-dir")) ∧
        (∀ path, scanMode settings a = .concatenate path ↔ given.has "full" ∧
          (("full-output", path) ∈ given ∨
            path = settings.fullImageName ∧ ¬given.has "full-output")) ∧
        (scanMode settings a = .summary ↔ ¬given.has "extract" ∧ ¬given.has "full" ∧
          ¬given.has "output-dir" ∧ ¬given.has "full-output") := by
  refine ⟨exists_spellsInspect h ha, fun items hitems => ?_⟩
  intro given
  obtain ⟨hextract, hfull, hdir, hpath, hsomeDir, hsomePath, hboth, hneedsDir, hneedsPath⟩ :=
    told_of_spellsInspect hitems h ha
  refine ⟨hextract, hfull, hdir, hpath, hboth, hneedsDir, hneedsPath,
    fun settings => ⟨fun dir => ?_, fun path => ?_, ?_⟩⟩
  · rw [scanMode_eq_extract_iff, hextract, hdir, hsomeDir]
  · rw [scanMode_eq_concatenate_iff, hpath, hsomePath, ← hfull]
    exact ⟨fun h => h.2, fun h => ⟨fun he => hboth ⟨he, h.1⟩, h⟩⟩
  · rw [scanMode_eq_summary_iff, ← hextract, ← hfull, ← hsomeDir, ← hsomePath]
    refine ⟨fun h => ⟨h.1, h.2, fun hd => ?_, fun hp => ?_⟩, fun h => ⟨h.1, h.2.1⟩⟩
    · exact (hneedsDir hd).elim h.1 h.2
    · exact (hneedsPath hp).elim h.2 h.1

end ScanMode

/-- Options of all commands on both sides of the name of the command, and letters that share a word.
-/
def mixedArguments : List String :=
  ["-v", "inspect", "--output-dir=o", "f", "-qe"]

/-- `mixedArguments` are accepted, and the payloads are written to files of their own in the
directory that is given. -/
theorem scanMode_of_ofArguments_mixed : ∃ invocation a items,
    Invocation.ofArguments mixedArguments = .ok invocation ∧ invocation.command = .inspect a ∧
      SpellsInspect mixedArguments items ∧
      Given.ofItems items =
        [("output-dir", "o"), ("file", "f"), ("quiet", ""), ("extract", "")] ∧
      ∀ settings, scanMode settings a = .extract "o" := by
  have hread : Invocation.ofArguments mixedArguments = .ok {
      verbose := 1
      quiet := true
      config := none
      command := .inspect ⟨"f", true, false, some "o", none⟩ } := rfl
  have hverbose : rootLevel.Opens (String.ofList ['-', 'v'])
      [(⟨"verbose", some 'v', .counter⟩, "")] none :=
    .letters (by decide) (.switch (by decide) rfl rfl .nil)
  have hmem : ⟨"output-dir", some 'd', .path⟩ ∈ inspectLevel.options := by decide
  have hletters : inspectLevel.Opens (String.ofList ['-', 'q', 'e'])
      [(⟨"quiet", some 'q', .flag⟩, ""), (⟨"extract", some 'e', .flag⟩, "")] none :=
    .letters (by decide)
      (.switch (by decide) rfl rfl (.switch (by decide) rfl rfl .nil))
  have hspells : SpellsInspect mixedArguments [(⟨"output-dir", some 'd', .path⟩, "o"),
      (fileArgument, "f"), (⟨"quiet", some 'q', .flag⟩, ""), (⟨"extract", some 'e', .flag⟩, "")] :=
    ⟨_, _, ⟨["-v"], _, _, [], rfl, .options hverbose .nil, .command (by decide), rfl⟩,
      ⟨["--output-dir=o", "f", "-qe"], _, [], [], rfl,
        .options (.equals "o" hmem rfl) (.positional rfl rfl (.options hletters .nil)), .all, rfl⟩⟩
  obtain ⟨-, hmode⟩ := scanMode_of_ofArguments hread rfl
  obtain ⟨-, -, -, -, -, -, -, hsettings⟩ := hmode _ hspells
  exact ⟨_, _, _, hread, rfl, hspells, rfl,
    fun settings => ((hsettings settings).1 "o").2 ⟨by decide, .inl List.mem_cons_self⟩⟩

/-- A place is also accepted with the other flag, and then it is passed over. So of neither place is
it true that it is never accepted without its own flag. -/
theorem not_forall_place_needs_flag :
    (¬ ∀ args invocation a, Invocation.ofArguments args = .ok invocation →
      invocation.command = .inspect a → a.outputDir.isSome → a.extract) ∧
    ¬ ∀ args invocation a, Invocation.ofArguments args = .ok invocation →
      invocation.command = .inspect a → a.fullOutput.isSome → a.full := by
  constructor
  · intro hforall
    have hread : Invocation.ofArguments ["inspect", "f", "-f", "-d", "out"] = .ok {
        verbose := 0
        quiet := false
        config := none
        command := .inspect ⟨"f", false, true, some "out", none⟩ } := rfl
    cases hforall _ _ _ hread rfl rfl
  · intro hforall
    have hread : Invocation.ofArguments ["inspect", "f", "-e", "--full-output", "x"] = .ok {
        verbose := 0
        quiet := false
        config := none
        command := .inspect ⟨"f", true, false, none, some "x"⟩ } := rfl
    cases hforall _ _ _ hread rfl rfl

end FirmwareBundle.CommandLine
