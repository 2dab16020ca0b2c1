import FirmwareBundle.Proofs.ArgumentSpelling
/-!
# Arguments that are read

Arguments are read just if they are a spelling of options that may be given together, and then these
are what is noted. So it does not matter how they are spelled.

## Main definitions

* `FirmwareBundle.CommandLine.Level.Holds` — what was read so far amounts to some options.
* `FirmwareBundle.CommandLine.Level.Answers` — the same for an attempt to read, which may have
  failed.

## Main results

* `FirmwareBundle.CommandLine.Level.Spelled.read_eq` — what is spelled is read.
* `FirmwareBundle.CommandLine.Level.exists_spelled_of_read_eq_ok` — what is read is spelled.
* `FirmwareBundle.CommandLine.Level.Spelled.readAll_eq_ok_iff`,
  `FirmwareBundle.CommandLine.readAll_eq_ok_iff` — the arguments that are read, and what is noted.
-/

namespace FirmwareBundle.CommandLine

/-! ## Progress -/

/-- What is not noted in `p` yet but has its value. -/
def Progress.waiting (p : Progress) : List Item :=
  match p.pending with
  | some (spec, some value) => [(spec, value)]
  | _ => []

/-- Lets the option `spec` wait with its `value` until the next one begins. -/
def Progress.keep (p : Progress) (spec : OptionSpec) (value : String) :
    Except UsageFault Progress := do
  let p ← p.settle
  pure { p with pending := some (spec, some value) }

/-- Begins the option whose value is the next word, if there is one. -/
def Progress.awaitAny (p : Progress) : Option OptionSpec → Except UsageFault Progress
  | none => .ok p
  | some spec => p.await spec

namespace Level

/-- What was read so far, `p`, amounts to `items`: they are noted, but for one that may be waiting.
If a positional argument was read, it is one of them. -/
structure Holds (level : Level) (p : Progress) (items : List Item) : Prop where
  isAwaiting : p.isAwaiting = false
  exists_noted : ∃ noted, noteAll noted = .ok p.given ∧ items = noted ++ p.waiting
  positional : p.positionalGiven →
    ∃ spec value, level.positional = some spec ∧ (spec, value) ∈ items

/-- An attempt to read amounts to `items`: it holds them, or it has failed and they may not be given
together (`noteAll` fails for them). -/
def Answers (level : Level) : Except UsageFault Progress → List Item → Prop
  | .ok p, items => level.Holds p items
  | .error _, items => ∀ given, noteAll items ≠ .ok given

section Progress

variable {level : Level} {p : Progress} {items more : List Item} {spec : OptionSpec}
  {value : String}

/-- At the start nothing has been read, so there are no items. -/
lemma holds_start (level : Level) : level.Holds {} [] :=
  ⟨rfl, ⟨[], rfl, rfl⟩, nofun⟩

/-- **What is noted in the end** are the `items`: the one that is waiting, if any, is noted behind
the others. -/
theorem Holds.settle_eq (h : level.Holds p items) :
    p.settle = (noteAll items).map fun given => { p with given, pending := none } := by
  obtain ⟨hawaiting, ⟨noted, hnoted, rfl⟩, -⟩ := h
  obtain ⟨given, pending, positionalGiven⟩ := p
  match pending with
  | none =>
    rw [Progress.waiting, List.append_nil, hnoted]
    rfl
  | some (spec, none) => cases hawaiting
  | some (spec, some value) =>
    have hsplit : noteAll (noted ++ [(spec, value)]) = given.note spec value := by
      rw [noteAll_concat, hnoted]
      rfl
    simp only [Progress.waiting, hsplit, Progress.settle]
    cases given.note spec value <;> rfl

/-- Once `items` and `more` are noted, they are what has been read. -/
private lemma Holds.answers_noteAll (h : level.Holds p items) (more : List Item) :
    level.Answers ((noteAll (items ++ more)).map fun given => { p with given, pending := none })
      (items ++ more) := by
  cases hnote : noteAll (items ++ more) with
  | error e =>
    intro given hgiven
    cases hnote.symm.trans hgiven
  | ok given =>
    refine ⟨rfl, ⟨items ++ more, hnote, (List.append_nil _).symm⟩, fun hp => ?_⟩
    obtain ⟨spec, value, hspec, hmem⟩ := h.positional hp
    exact ⟨spec, value, hspec, List.mem_append_left more hmem⟩

/-- The option `spec` with a `value` is noted behind the `items`. If these are noted,
`Progress.note` settles and then notes the option, as `noteAll` does at the end of a list
(`noteAll_concat`); if not, both fail. -/
private lemma Holds.answers_note (h : level.Holds p items) (spec : OptionSpec) (value : String) :
    level.Answers (p.note spec value) (items ++ [(spec, value)]) := by
  have hnote : p.note spec value = (noteAll (items ++ [(spec, value)])).map fun given =>
      { p with given, pending := none } := by
    rw [Progress.note, h.settle_eq, noteAll_concat]
    cases noteAll items with
    | error e => rfl
    | ok given =>
      simp only [Except.map, bind, Except.bind]
      cases given.note spec value <;> rfl
  rw [hnote]
  exact h.answers_noteAll [(spec, value)]

/-- The switch `spec` is noted behind the `items`.

**Proof sketch.** A flag is noted at once (`Level.Holds.answers_note`). A counter is settled and
noted without a check, as `noteAll` notes it. -/
private lemma Holds.answers_flag (h : level.Holds p items) (hkind : spec.kind.isSwitch) :
    level.Answers (p.flag spec) (items ++ [(spec, "")]) := by
  have hflag : p.flag spec = p.note spec "" := by
    rw [Progress.flag, Progress.note, h.settle_eq]
    cases noteAll items with
    | error e => rfl
    | ok given =>
      cases hspec : spec.kind with
      | flag | counter => rfl
      | help | version | text | path =>
        rw [hspec] at hkind
        cases hkind
  rw [hflag]
  exact h.answers_note spec ""

/-- The option `spec` that waits with its `value` comes behind the `items`. It is not noted yet, so
this fails only if the one that was waiting before cannot be noted. -/
private lemma Holds.answers_keep (h : level.Holds p items) (spec : OptionSpec) (value : String) :
    level.Answers (p.keep spec value) (items ++ [(spec, value)]) := by
  rw [Progress.keep, h.settle_eq]
  cases hnote : noteAll items with
  | error e =>
    intro given hgiven
    obtain ⟨before, hbefore⟩ := exists_noteAll_of_append hgiven
    cases hnote.symm.trans hbefore
  | ok given =>
    refine ⟨rfl, ⟨items, hnote, rfl⟩, fun hp => ?_⟩
    obtain ⟨spec', value', hspec, hmem⟩ := h.positional hp
    exact ⟨spec', value', hspec, List.mem_append_left _ hmem⟩

/-- A positional argument comes behind the `items`.

**Proof sketch.** If there was one before, `value` is refused, and the items may not be given
together (`admissible_concat_iff`), since `spec` is no counter. If not, `value` waits behind the
others until the next option begins. -/
private lemma Holds.answers_word (h : level.Holds p items) (hspec : level.positional = some spec)
    (hkind : spec.kind ≠ .counter) (trailing : Bool) (value : String) :
    level.Answers (level.word p trailing value) (items ++ [(spec, value)]) := by
  rw [word, hspec]
  by_cases hp : p.positionalGiven
  · -- It was given before, so it may not be given again.
    obtain ⟨other, value', hother, hmem⟩ := h.positional hp
    obtain rfl := Option.some.inj (hspec.symm.trans hother)
    simp only [hp, ↓reduceIte]
    intro given hgiven
    obtain ⟨-, hlast, -⟩ := admissible_concat_iff.1 (noteAll_eq_ok_iff.1 hgiven).1
    exact hlast hkind _ hmem rfl
  · simp only [hp, Bool.false_eq_true, ↓reduceIte]
    rw [h.settle_eq]
    cases hnote : noteAll items with
    | error e =>
      intro given hgiven
      obtain ⟨before, hbefore⟩ := exists_noteAll_of_append hgiven
      cases hnote.symm.trans hbefore
    | ok given =>
      exact ⟨rfl, ⟨items, hnote, rfl⟩, fun _ =>
        ⟨spec, value, hspec, List.mem_append_right _ List.mem_cons_self⟩⟩

/-- **Reading goes on.** If what was read first, `x`, amounts to `items`, and whatever follows
amounts to `more`, then both amount to `items ++ more`. If `x` has failed, `items` may not be given
together, and no more may those that begin with them (`exists_noteAll_of_append`). -/
theorem Answers.bind {α β : Type} {x : Except UsageFault Progress} (h : level.Answers x items)
    (more : List Item) {f g : α → Progress → Except UsageFault β}
    (hrest : ∀ p, level.Holds p items → ∃ y, level.Answers y (items ++ more) ∧
      ∀ a, f a p = y >>= g a) :
    ∃ y, level.Answers y (items ++ more) ∧ ∀ a, x >>= f a = y >>= g a := by
  cases x with
  | error e =>
    refine ⟨.error e, fun given hgiven => ?_, fun a => rfl⟩
    obtain ⟨before, hbefore⟩ := exists_noteAll_of_append hgiven
    exact h before hbefore
  | ok p => exact hrest p h

/-- What is noted once all is read is what `noteAll items` notes, if it does not fail. -/
lemma Answers.settle_eq_ok_iff {x : Except UsageFault Progress} {given : Given}
    (h : level.Answers x items) :
    (do let p ← x; pure (← p.settle).given) = .ok given ↔ noteAll items = .ok given := by
  cases x with
  | error e => exact ⟨nofun, fun hgiven => absurd hgiven (h given)⟩
  | ok p =>
    have hsettle := Holds.settle_eq h
    show (p.settle >>= fun p => pure p.given) = .ok given ↔ _
    rw [hsettle]
    cases noteAll items <;> rfl

end Progress

end Level

/-! ## Progress that succeeds -/

namespace Progress

variable {p p' : Progress} {spec : OptionSpec} {value : String}

/-- What an option that was begun leaves in `p`: the option whose value is the next word is waiting
for it, if there is one. -/
def Awaits (p : Progress) : Option OptionSpec → Prop
  | none => p.isAwaiting = false
  | some spec => p.pending = some (spec, none)

/-- If no value is missing in `p`, no option waits for one. -/
private lemma Awaits.eq_none {awaiting : Option OptionSpec} (h : p.Awaits awaiting)
    (hp : p.isAwaiting = false) : awaiting = none := by
  cases awaiting with
  | none => rfl
  | some spec =>
    rw [isAwaiting, show p.pending = some (spec, none) from h] at hp
    cases hp

/-- Nothing is settled while a value is missing, and afterwards nothing is waiting. -/
lemma of_settle_eq_ok (h : p.settle = .ok p') : p.isAwaiting = false ∧ p'.pending = none := by
  obtain ⟨given, pending, positionalGiven⟩ := p
  match pending with
  | none =>
    obtain rfl := Except.ok.inj h
    exact ⟨rfl, rfl⟩
  | some (spec, none) => cases h
  | some (spec, some value) =>
    obtain ⟨given', -, h⟩ := bind_eq_ok_iff.1 h
    obtain rfl := Except.ok.inj h
    exact ⟨rfl, rfl⟩

/-- Nothing is noted while a value is missing, and then none is. -/
private lemma of_note_eq_ok (h : p.note spec value = .ok p') :
    p.isAwaiting = false ∧ p'.Awaits none := by
  obtain ⟨settled, hsettle, h⟩ := bind_eq_ok_iff.1 h
  obtain ⟨given, -, h⟩ := bind_eq_ok_iff.1 h
  obtain rfl := Except.ok.inj h
  obtain ⟨hp, hpending⟩ := of_settle_eq_ok hsettle
  refine ⟨hp, ?_⟩
  rw [Awaits, isAwaiting, hpending]

/-- The option `spec` without a value that is carried out is a switch. -/
private lemma of_flag_eq_ok (hkind : ¬spec.kind.takesValue) (h : p.flag spec = .ok p') :
    p.isAwaiting = false ∧ spec.kind.isSwitch ∧ p'.Awaits none := by
  obtain ⟨settled, hsettle, h⟩ := bind_eq_ok_iff.1 h
  have hp := (of_settle_eq_ok hsettle).1
  cases hspec : spec.kind with
  | help | version =>
    rw [hspec] at h
    cases h
  | text | path =>
    rw [hspec] at hkind
    exact absurd rfl hkind
  | flag | counter =>
    rw [hspec] at h
    exact ⟨hp, rfl, (of_note_eq_ok h).2⟩

/-- The option `spec` that is begun waits for its value. -/
private lemma of_await_eq_ok (h : p.await spec = .ok p') :
    p.isAwaiting = false ∧ p'.Awaits (some spec) := by
  obtain ⟨settled, hsettle, h⟩ := bind_eq_ok_iff.1 h
  obtain rfl := Except.ok.inj h
  exact ⟨(of_settle_eq_ok hsettle).1, rfl⟩

end Progress

/-! ## Words that are read -/

namespace Level

section Read

variable {level : Level} {p q : Progress} {items own : List Item} {spec : OptionSpec} {c : Char}
  {cs : List Char} {awaiting : Option OptionSpec} {word name : String} {value : Option String}
  {args words : List String} {next : Option (String × List String)}

/-- Two dashes alone end the options. -/
private lemma WellFormed.read_dashes (hwf : level.WellFormed) (p : Progress) (args : List String) :
    level.read false p ("--" :: args) = level.read true p args := by
  have hcommand : "--" ∉ level.commands := fun hmem => absurd (hwf.commands _ hmem) (by decide)
  rw [read.eq_3, if_neg (fun h => hcommand h.2),
    if_neg (fun h => absurd h.2.2 (by decide : "--" ≠ helpCommand))]
  rfl

/-- A `word` of options is not taken for a command, nor for one that explains the others: by `hwf`
commands are plain words, and the one that explains is, too. -/
lemma WellFormed.read_cons (hwf : level.WellFormed) (hword : word.toList = '-' :: c :: cs) :
    level.read false p (word :: args) =
      match '-' :: c :: cs with
      | ['-', '-'] => level.read true p args
      | '-' :: '-' :: option =>
        level.long p (splitValue option).1 (splitValue option).2 >>= (level.read false · args)
      | _ => level.letters p (c :: cs) >>= (level.read false · args) := by
  have hplain : isPlainWord word = false := isPlainWord_eq_false_iff.2 ⟨c, cs, hword⟩
  have hcommand : word ∉ level.commands := fun hmem => by simp [hwf.commands word hmem] at hplain
  have hhelp : word ≠ helpCommand := fun heq => by subst heq; cases hplain
  rw [read.eq_3, if_neg (fun h => hcommand h.2), if_neg (fun h => hhelp h.2.2), hword]
  split <;> simp_all

/-- A `word` with two dashes and more is read as a long `name`, with the `value` behind its equals
sign. -/
private lemma WellFormed.read_long (hwf : level.WellFormed) {option : List Char}
    (hword : word.toList = '-' :: '-' :: option) (hne : option ≠ [])
    (hsplit : splitValue option = (name, value)) :
    level.read false p (word :: args) =
      level.long p name value >>= (level.read false · args) := by
  obtain ⟨c, cs, rfl⟩ := List.exists_cons_of_ne_nil hne
  rw [hwf.read_cons hword]
  simp only [hsplit]

/-- A `word` with one dash and more is read letter by letter. -/
private lemma WellFormed.read_letters (hwf : level.WellFormed)
    (hword : word.toList = '-' :: c :: cs) (hc : c ≠ '-') :
    level.read false p (word :: args) =
      level.letters p (c :: cs) >>= (level.read false · args) := by
  rw [hwf.read_cons hword]
  split <;> simp_all

/-- A plain `word` that is no command is the value of the option that waits for one, or else a
positional argument.

**Proof sketch.** By `hcommand` a value is awaited or the word is neither a command nor the one that
explains the others, so the first two tests fail. It is plain, so it does not look like two dashes,
a long name or letters either. -/
private lemma read_plain (hplain : isPlainWord word) (p : Progress) (args : List String)
    (hcommand : p.isAwaiting ∨
      word ∉ level.commands ∧ (level.commands = [] ∨ word ≠ helpCommand)) :
    level.read false p (word :: args) =
      match p.pending with
      | some (spec, none) => level.read false { p with pending := some (spec, some word) } args
      | _ => level.word p false word >>= (level.read false · args) := by
  have hname : ¬(¬p.isAwaiting ∧ word ∈ level.commands) := by
    rintro ⟨hp, hmem⟩
    exact (hcommand.resolve_left hp).1 hmem
  have hhelp : ¬(¬p.isAwaiting ∧ ¬level.commands.isEmpty ∧ word = helpCommand) := by
    rintro ⟨hp, hempty, heq⟩
    rcases (hcommand.resolve_left hp).2 with hnil | hne
    · rw [hnil] at hempty
      exact hempty rfl
    · exact hne heq
  have hword : ∀ c rest, word.toList ≠ '-' :: c :: rest := by
    intro c rest h
    rw [isPlainWord_eq_false_iff.2 ⟨c, rest, h⟩] at hplain
    cases hplain
  rw [read.eq_3, if_neg hname, if_neg hhelp]
  split
  · rename_i h
    exact absurd h (hword _ _)
  · rename_i h
    exact absurd h (hword _ _)
  · rename_i h
    exact absurd h (hword _ _)
  · rfl

/-! ### What is spelled is read -/

/-- The option `spec` whose value is the next `word` is read with it: that it waits first makes no
difference. -/
private lemma await_bind_read (hplain : isPlainWord word) (p : Progress) (spec : OptionSpec)
    (args : List String) :
    (p.await spec >>= fun p => level.read false p (word :: args)) =
      p.keep spec word >>= (level.read false · args) := by
  rw [Progress.await, Progress.keep]
  cases p.settle with
  | error e => rfl
  | ok settled =>
    exact read_plain hplain { settled with pending := some (spec, none) } args (.inl rfl)

/-- The letters `cs` that share a word are read as what they spell, `own`, and the option that is
`awaiting` its value is begun.

**Proof sketch.** Induction on the spelling. A letter is found at its option
(`Level.WellFormed.find?_letter`), which is a switch, or takes the rest of the word as its value, or
is begun. Behind a switch the reading goes on (`Level.Answers.bind`). -/
private lemma Cluster.answers (hwf : level.WellFormed) (h : level.Cluster cs own awaiting)
    (hp : level.Holds p items) : ∃ x, level.Answers x (items ++ own) ∧
      level.letters p cs = x >>= (·.awaitAny awaiting) := by
  induction h generalizing p items with
  | nil => exact ⟨.ok p, (List.append_nil items).symm ▸ hp, rfl⟩
  | @switch spec c cs own awaiting hmem hletter hkind hrest ih =>
    have hletters : level.letters p (c :: cs) =
        p.flag spec >>= fun p => level.letters p cs := by
      rw [letters.eq_2, hwf.find?_letter hmem hletter]
      simp only [OptionKind.takesValue_eq_false hkind, Bool.false_eq_true, ↓reduceIte]
    obtain ⟨x, hx, heq⟩ := (hp.answers_flag hkind).bind own (α := Unit)
      (f := fun _ p => level.letters p cs) (g := fun _ p => p.awaitAny awaiting) fun p hp => by
        obtain ⟨x, hx, heq⟩ := ih hp
        exact ⟨x, hx, fun _ => heq⟩
    rw [List.append_assoc, List.singleton_append] at hx
    exact ⟨x, hx, hletters.trans (heq ())⟩
  | @joined spec c value hmem hletter hkind hvalue hequals =>
    refine ⟨p.note spec (String.ofList value), hp.answers_note spec _, ?_⟩
    rw [letters.eq_2, hwf.find?_letter hmem hletter]
    simp only [hkind, ↓reduceIte]
    split
    · exact absurd rfl hvalue
    · exact absurd rfl hequals
    · exact (bind_pure _).symm
  | @equals spec c value hmem hletter hkind =>
    refine ⟨p.note spec (String.ofList value), hp.answers_note spec _, ?_⟩
    rw [letters.eq_2, hwf.find?_letter hmem hletter]
    simp only [hkind, ↓reduceIte]
    exact (bind_pure _).symm
  | @separate spec c hmem hletter hkind =>
    refine ⟨.ok p, (List.append_nil items).symm ▸ hp, ?_⟩
    rw [letters.eq_2, hwf.find?_letter hmem hletter]
    simp only [hkind, ↓reduceIte]
    rfl

/-- The word of the long name of `spec` is read as this option, with its `value` if there is one. -/
private lemma WellFormed.read_name (hwf : level.WellFormed) (hmem : spec ∈ level.options)
    (value : Option String)
    (hword : word.toList = '-' :: '-' :: (spec.name.toList ++ valueText value)) :
    level.read false p (word :: args) =
      (match value with
        | some value =>
          if spec.kind.takesValue then p.note spec value else .error .tooManyValues
        | none => if spec.kind.takesValue then p.await spec else p.flag spec) >>=
      (level.read false · args) := by
  obtain ⟨hname, hequals, -⟩ := hwf.spellable spec hmem
  have hne : spec.name.toList ++ valueText value ≠ [] := by
    intro hnil
    exact hname (String.toList_eq_nil_iff.1 (List.append_eq_nil_iff.1 hnil).1)
  rw [hwf.read_long hword hne (splitValue_append hequals value), long.eq_def, hwf.find?_name hmem]
  cases value <;> rfl

/-- **A word of options** is read as what it spells, `own`, and the option that is `awaiting` its
value is begun.

**Proof sketch.** There is one case for each way to spell a word. Three of them are long names
(`Level.WellFormed.read_name`): a switch is carried out, a value in the same word is noted, and an
option without one is begun. The fourth is letters (`Level.Cluster.answers`). -/
theorem Opens.answers (hwf : level.WellFormed) (h : level.Opens word own awaiting)
    (hp : level.Holds p items) : ∃ x, level.Answers x (items ++ own) ∧
      ∀ args, level.read false p (word :: args) =
        (x >>= (·.awaitAny awaiting)) >>= (level.read false · args) := by
  cases h with
  | @switch spec hmem hkind =>
    refine ⟨p.flag spec, hp.answers_flag hkind, fun args => ?_⟩
    rw [hwf.read_name hmem none (by simp [valueText])]
    simp only [OptionKind.takesValue_eq_false hkind, Bool.false_eq_true, ↓reduceIte]
    exact congrArg (· >>= _) (bind_pure _).symm
  | @equals spec value hmem hkind =>
    refine ⟨p.note spec value, hp.answers_note spec value, fun args => ?_⟩
    rw [hwf.read_name hmem (some value) (by simp [valueText])]
    simp only [hkind, ↓reduceIte]
    exact congrArg (· >>= _) (bind_pure _).symm
  | @separate spec hmem hkind =>
    refine ⟨.ok p, (List.append_nil items).symm ▸ hp, fun args => ?_⟩
    rw [hwf.read_name hmem none (by simp [valueText])]
    simp only [hkind, ↓reduceIte]
    rfl
  | @letters cs own awaiting hne hcluster =>
    obtain ⟨x, hx, heq⟩ := hcluster.answers hwf hp
    refine ⟨x, hx, fun args => ?_⟩
    obtain ⟨c, cs, rfl⟩ := List.exists_cons_of_ne_nil hne
    rw [hwf.read_letters String.toList_ofList (hcluster.head_ne hwf), heq]

/-- **Words** are read as what they spell.

**Proof sketch.** Induction on the spelling. The first word is a positional argument, a word of
options (`Level.Opens.answers`), or a word of options whose value is the second word
(`await_bind_read`). The reading goes on with the others by `Level.Answers.bind`. -/
theorem Spells.answers (hwf : level.WellFormed) (h : level.Spells words own)
    (hp : level.Holds p items) : ∃ x, level.Answers x (items ++ own) ∧
      ∀ args, level.read false p (words ++ args) = x >>= (level.read false · args) := by
  induction h generalizing p items with
  | nil => exact ⟨.ok p, (List.append_nil items).symm ▸ hp, fun args => rfl⟩
  | @positional spec word words own hspec hplain hrest ih =>
    obtain ⟨hkind, hcommands⟩ := hwf.positional spec hspec
    obtain ⟨x, hx, heq⟩ := (hp.answers_word hspec hkind false word).bind own
      (f := fun args p => level.read false p (words ++ args))
      (g := fun args p => level.read false p args) fun p hp => ih hp
    rw [List.append_assoc, List.singleton_append] at hx
    refine ⟨x, hx, fun args => ?_⟩
    rw [← heq, List.cons_append, read_plain hplain p _ (.inr ⟨by simp [hcommands], .inl hcommands⟩)]
    split
    · rename_i hpending
      have hawaiting := hp.isAwaiting
      rw [Progress.isAwaiting, hpending] at hawaiting
      cases hawaiting
    · rfl
  | @options word words own more hopens hrest ih =>
    obtain ⟨y, hy, hyeq⟩ := hopens.answers hwf hp
    obtain ⟨x, hx, heq⟩ := hy.bind more
      (f := fun args p => level.read false p (words ++ args))
      (g := fun args p => level.read false p args) fun p hp => ih hp
    rw [List.append_assoc] at hx
    refine ⟨x, hx, fun args => ?_⟩
    rw [← heq, List.cons_append, hyeq]
    exact congrArg (· >>= _) (bind_pure _)
  | @separate spec word value words own more hopens hplain hrest ih =>
    obtain ⟨y, hy, hyeq⟩ := hopens.answers hwf hp
    obtain ⟨z, hz, hzeq⟩ := hy.bind [(spec, value)]
      (f := fun args p => p.keep spec value >>= (level.read false · args))
      (g := fun args p => level.read false p args) fun p hp =>
        ⟨p.keep spec value, hp.answers_keep spec value, fun args => rfl⟩
    obtain ⟨x, hx, heq⟩ := hz.bind more
      (f := fun args p => level.read false p (words ++ args))
      (g := fun args p => level.read false p args) fun p hp => ih hp
    rw [List.append_assoc, List.append_assoc, List.singleton_append] at hx
    refine ⟨x, hx, fun args => ?_⟩
    rw [← heq, ← hzeq, List.cons_append, List.cons_append, hyeq, bind_assoc]
    exact congrArg (y >>= ·) (funext fun p => await_bind_read hplain p spec _)

/-- The end of the options is read as what it spells.

**Proof sketch.** At the end of the arguments and at a command nothing is spelled. Behind two dashes
every word is a positional argument (`Level.Holds.answers_word`), so there is an induction on these
words, which goes on by `Level.Answers.bind`. -/
private lemma Ends.answers (hwf : level.WellFormed) (h : level.Ends words own next)
    (hp : level.Holds p items) : ∃ x, level.Answers x (items ++ own) ∧
      level.read false p words = x >>= fun p => .ok (p, next) := by
  cases h with
  | all => exact ⟨.ok p, (List.append_nil items).symm ▸ hp, rfl⟩
  | @dashes words own hitems =>
    rw [hwf.read_dashes]
    induction hitems generalizing p items with
    | nil => exact ⟨.ok p, (List.append_nil items).symm ▸ hp, rfl⟩
    | @cons word item words own hitem hrest ih =>
      obtain ⟨spec, value⟩ := item
      obtain ⟨hspec, rfl⟩ := hitem
      obtain ⟨x, hx, heq⟩ := (hp.answers_word hspec (hwf.positional spec hspec).1 true value).bind
        own (α := Unit) (f := fun _ p => level.read true p words)
        (g := fun _ p => .ok (p, none)) fun p hp => by
          obtain ⟨x, hx, heq⟩ := ih hp
          exact ⟨x, hx, fun _ => heq⟩
      rw [List.append_assoc, List.singleton_append] at hx
      exact ⟨x, hx, heq ()⟩
  | @command name args hmem =>
    refine ⟨.ok p, (List.append_nil items).symm ▸ hp, ?_⟩
    rw [read.eq_3, if_pos ⟨by simp [hp.isAwaiting], hmem⟩]
    rfl

/-- **What is spelled is read**: the arguments `args` are read as the `items` that they spell, and
the reading stops at the command `next`, if there is one. -/
theorem Spelled.read_eq (hwf : level.WellFormed) (h : level.Spelled args items next) :
    ∃ x, level.Answers x items ∧ level.read false {} args = x >>= fun p => .ok (p, next) := by
  obtain ⟨words, own, tail, last, rfl, hspells, hends, rfl⟩ := h
  obtain ⟨y, hy, hyeq⟩ := hspells.answers hwf (holds_start level)
  obtain ⟨x, hx, heq⟩ := hy.bind last (α := Unit) (f := fun _ p => level.read false p tail)
    (g := fun _ p => .ok (p, next)) fun p hp => by
      obtain ⟨x, hx, heq⟩ := hends.answers hwf hp
      exact ⟨x, hx, fun _ => heq⟩
  exact ⟨x, hx, (hyeq tail).trans (heq ())⟩

/-! ### What is read is spelled -/

/-- The letters `cs` that are read spell something, and none are read while a value is missing.

**Proof sketch.** Induction on `cs`. The first letter belongs to an option (`of_find?_letter`). If
it takes a value, the rest of the word is that value, or the option waits for it; if not, it is a
switch (`Progress.of_flag_eq_ok`), and the rest spells something. -/
private lemma cluster_of_letters_eq_ok (h : level.letters p cs = .ok q) :
    (cs ≠ [] → p.isAwaiting = false) ∧
      (p.isAwaiting = false →
        ∃ own awaiting, level.Cluster cs own awaiting ∧ q.Awaits awaiting) := by
  induction cs generalizing p with
  | nil =>
    obtain rfl := Except.ok.inj h
    exact ⟨fun hne => absurd rfl hne, fun hp => ⟨[], none, .nil, hp⟩⟩
  | cons c cs ih =>
    suffices hcluster : p.isAwaiting = false ∧
        ∃ own awaiting, level.Cluster (c :: cs) own awaiting ∧ q.Awaits awaiting from
      ⟨fun _ => hcluster.1, fun _ => hcluster.2⟩
    rw [letters.eq_2] at h
    split at h
    · cases h
    · rename_i spec hfind
      obtain ⟨hmem, hletter⟩ := of_find?_letter hfind
      split at h
      · rename_i hkind
        split at h
        · obtain ⟨hp, hq⟩ := Progress.of_await_eq_ok h
          exact ⟨hp, [], some spec, .separate hmem hletter hkind, hq⟩
        · rename_i value
          obtain ⟨hp, hq⟩ := Progress.of_note_eq_ok h
          exact ⟨hp, _, none, .equals value hmem hletter hkind, hq⟩
        · rename_i hnil hequals
          obtain ⟨hp, hq⟩ := Progress.of_note_eq_ok h
          refine ⟨hp, _, none, .joined hmem hletter hkind (fun heq => hnil heq) ?_, hq⟩
          intro hhead
          obtain ⟨rest, hrest⟩ := List.head?_eq_some_iff.1 hhead
          exact hequals rest hrest
      · rename_i hkind
        obtain ⟨flagged, hflag, h⟩ := bind_eq_ok_iff.1 h
        obtain ⟨hp, hswitch, hflagged⟩ := Progress.of_flag_eq_ok hkind hflag
        obtain ⟨own, awaiting, hcluster, hq⟩ := (ih h).2 hflagged
        exact ⟨hp, _, awaiting, .switch hmem hletter hswitch hcluster, hq⟩

/-- A long `name` that is read, with or without a `value`, spells something.

**Proof sketch.** It is the name of an option. With a `value` the option must take one and is noted;
without one it is begun if it takes a value, and a switch if not (`Progress.of_flag_eq_ok`). -/
private lemma exists_opens_of_long_eq_ok (h : level.long p name value = .ok q) :
    p.isAwaiting = false ∧ ∃ own awaiting,
      level.Opens (String.ofList ('-' :: '-' :: (name.toList ++ valueText value))) own awaiting ∧
        q.Awaits awaiting := by
  rw [long.eq_def] at h
  split at h
  · cases h
  · rename_i spec value hfind
    obtain rfl : spec.name = name := by simpa using List.find?_some hfind
    have hmem := List.mem_of_find?_eq_some hfind
    have hword : String.ofList ('-' :: '-' :: (spec.name.toList ++ valueText (some value))) =
        "--" ++ spec.name ++ "=" ++ value := String.toList_inj.1 (by simp [valueText])
    split at h
    · rename_i hkind
      obtain ⟨hp, hq⟩ := Progress.of_note_eq_ok h
      rw [hword]
      exact ⟨hp, _, none, .equals value hmem hkind, hq⟩
    · cases h
  · rename_i spec hfind
    obtain rfl : spec.name = name := by simpa using List.find?_some hfind
    have hmem := List.mem_of_find?_eq_some hfind
    have hword : String.ofList ('-' :: '-' :: (spec.name.toList ++ valueText none)) =
        "--" ++ spec.name := String.toList_inj.1 (by simp [valueText])
    rw [hword]
    split at h
    · rename_i hkind
      obtain ⟨hp, hq⟩ := Progress.of_await_eq_ok h
      exact ⟨hp, [], some spec, .separate hmem hkind, hq⟩
    · rename_i hkind
      obtain ⟨hp, hswitch, hq⟩ := Progress.of_flag_eq_ok hkind h
      exact ⟨hp, _, none, .switch hmem hswitch, hq⟩

/-- A `word` of options that is read spells something, unless it is two dashes alone, and the
reading goes on behind it.

**Proof sketch.** The word has a dash and another character. If that is a dash, too, it is a long
name (`Level.WellFormed.read_long`, `Level.exists_opens_of_long_eq_ok`), and if it is not, the word
is letters (`Level.cluster_of_letters_eq_ok`). -/
private lemma WellFormed.exists_opens_of_read_eq_ok {r : Progress × Option (String × List String)}
    (hwf : level.WellFormed) (hword : isPlainWord word = false) (hne : word ≠ "--")
    (h : level.read false p (word :: args) = .ok r) :
    p.isAwaiting = false ∧ ∃ own awaiting p', level.Opens word own awaiting ∧
      p'.Awaits awaiting ∧ level.read false p' args = .ok r := by
  obtain ⟨c, cs, hlist⟩ := isPlainWord_eq_false_iff.1 hword
  obtain rfl : word = String.ofList ('-' :: c :: cs) :=
    String.toList_inj.1 (by rw [hlist, String.toList_ofList])
  by_cases hc : c = '-'
  · subst hc
    have hcs : cs ≠ [] := by
      rintro rfl
      exact hne rfl
    obtain ⟨-, hsplit⟩ := splitValue_eq_iff.1 (rfl : splitValue cs = (_, _))
    rw [hwf.read_long hlist hcs rfl] at h
    obtain ⟨p', hlong, hrest⟩ := bind_eq_ok_iff.1 h
    obtain ⟨hp, own, awaiting, hopens, hp'⟩ := exists_opens_of_long_eq_ok hlong
    rw [← hsplit] at hopens
    exact ⟨hp, own, awaiting, p', hopens, hp', hrest⟩
  · rw [hwf.read_letters hlist hc] at h
    obtain ⟨p', hletters, hrest⟩ := bind_eq_ok_iff.1 h
    have hne := List.cons_ne_nil c cs
    have hp := (cluster_of_letters_eq_ok hletters).1 hne
    obtain ⟨own, awaiting, hcluster, hp'⟩ := (cluster_of_letters_eq_ok hletters).2 hp
    exact ⟨hp, own, awaiting, p', .letters hne hcluster, hp', hrest⟩

/-- A positional argument that is read is known, and no value is missing before or after it. -/
private lemma of_word_eq_ok {trailing : Bool} (h : level.word p trailing word = .ok q) :
    p.isAwaiting = false ∧ (∃ spec, level.positional = some spec) ∧ q.Awaits none := by
  rw [Level.word] at h
  split at h
  · rename_i spec hspec
    split at h
    · cases h
    · obtain ⟨settled, hsettle, h⟩ := bind_eq_ok_iff.1 h
      obtain rfl := Except.ok.inj h
      exact ⟨(Progress.of_settle_eq_ok hsettle).1, ⟨spec, hspec⟩, rfl⟩
  · split at h <;> cases h

/-- Behind two dashes there are only positional arguments. Induction on `words`. -/
private lemma of_read_trailing_eq_ok (h : level.read true p words = .ok (q, next))
    (hq : q.isAwaiting = false) :
    p.isAwaiting = false ∧ ∃ items, level.Ends ("--" :: words) items next := by
  suffices hwords : p.isAwaiting = false ∧ next = none ∧ ∃ items, List.Forall₂
      (fun word (item : Item) => level.positional = some item.1 ∧ item.2 = word) words items by
    obtain ⟨hp, rfl, items, hitems⟩ := hwords
    exact ⟨hp, items, .dashes hitems⟩
  induction words generalizing p with
  | nil =>
    obtain ⟨rfl, rfl⟩ := Prod.mk.inj (Except.ok.inj h)
    exact ⟨hq, rfl, [], .nil⟩
  | cons word words ih =>
    rw [read.eq_2] at h
    obtain ⟨p', hword, hrest⟩ := bind_eq_ok_iff.1 h
    obtain ⟨hp, ⟨spec, hspec⟩, -⟩ := of_word_eq_ok hword
    obtain ⟨-, hnext, items, hitems⟩ := ih hrest
    exact ⟨hp, hnext, (spec, word) :: items, .cons ⟨hspec, rfl⟩ hitems⟩

/-- The command that explains the others is never carried out, whatever `args` are behind it. -/
private lemma explain_ne_ok {α : Type} (args : List String) (a : α) :
    level.explain args ≠ .ok a := by
  intro h
  unfold explain at h
  split at h
  · cases h
  · split at h <;> cases h
  · cases h

/-- A plain `word` that is read while no value is missing is a command, or a positional argument.

**Proof sketch.** It is no request for an explanation, which is never carried out
(`Level.explain_ne_ok`). If it is not a command, `Level.read_plain` takes it for a positional
argument. -/
private lemma of_read_plain_eq_ok (hplain : isPlainWord word) (hp : p.isAwaiting = false)
    (h : level.read false p (word :: args) = .ok (q, next)) :
    (word ∈ level.commands ∧ next = some (word, args)) ∨
      ∃ spec p', level.positional = some spec ∧ p'.Awaits none ∧
        level.read false p' args = .ok (q, next) := by
  by_cases hmem : word ∈ level.commands
  · rw [read.eq_3, if_pos ⟨by simp [hp], hmem⟩] at h
    exact .inl ⟨hmem, (Prod.mk.inj (Except.ok.inj h)).2.symm⟩
  by_cases hhelp : level.commands ≠ [] ∧ word = helpCommand
  · rw [read.eq_3, if_neg (fun h => hmem h.2), if_pos ⟨by simp [hp], by simp [hhelp], hhelp.2⟩] at h
    exact absurd h (explain_ne_ok args _)
  rw [read_plain hplain p args (.inr ⟨hmem, by tauto⟩)] at h
  split at h
  · rename_i hpending
    rw [Progress.isAwaiting, hpending] at hp
    cases hp
  · obtain ⟨p', hword, hrest⟩ := bind_eq_ok_iff.1 h
    obtain ⟨-, ⟨spec, hspec⟩, hp'⟩ := of_word_eq_ok hword
    exact .inr ⟨spec, p', hspec, hp', hrest⟩

/-- What may follow a word: `args` that spell something, behind a value if one is missing. -/
def Continues (level : Level) (args : List String) (next : Option (String × List String)) :
    Option OptionSpec → Prop
  | none => ∃ items, level.Spelled args items next
  | some _ => ∃ value rest items, args = value :: rest ∧ isPlainWord value ∧
      level.Spelled rest items next

/-- Where the options end something is spelled, and no value is missing. -/
private lemma Ends.continues (h : level.Ends args items next) : level.Continues args next none :=
  ⟨items, [], [], args, items, rfl, .nil, h, rfl⟩

/-- A `word` of options and what may follow it spell something: either the word has all its values,
or the one that is missing comes next. -/
private lemma Opens.continues (hopens : level.Opens word own awaiting)
    (h : level.Continues args next awaiting) : level.Continues (word :: args) next none := by
  cases awaiting with
  | none =>
    obtain ⟨_, words, items, tail, last, rfl, hspells, hends, rfl⟩ := h
    exact ⟨_, word :: words, _, tail, last, rfl, .options hopens hspells, hends, rfl⟩
  | some spec =>
    obtain ⟨value, _, _, rfl, hplain, words, items, tail, last, rfl, hspells, hends, rfl⟩ := h
    exact ⟨_, word :: value :: words, _, tail, last, rfl, .separate hopens hplain hspells, hends,
      rfl⟩

/-- The positional argument `word` and what may follow it spell something. -/
lemma Continues.positional (h : level.Continues args next none)
    (hspec : level.positional = some spec) (hplain : isPlainWord word) :
    level.Continues (word :: args) next none := by
  obtain ⟨_, words, items, tail, last, rfl, hspells, hends, rfl⟩ := h
  exact ⟨_, word :: words, _, tail, last, rfl, .positional hspec hplain hspells, hends, rfl⟩

/-- What is read goes on as it may.

**Proof sketch.** Induction on `args`. The first of them is the value that is missing, or else a
command, a positional argument (`of_read_plain_eq_ok`), two dashes (`of_read_trailing_eq_ok`) or a
word of options (`Level.WellFormed.exists_opens_of_read_eq_ok`). The rest goes on as it may. -/
private lemma continues_of_read_eq_ok (hwf : level.WellFormed) (hq : q.isAwaiting = false)
    (awaiting : Option OptionSpec) (hp : p.Awaits awaiting)
    (h : level.read false p args = .ok (q, next)) : level.Continues args next awaiting := by
  induction args generalizing p awaiting with
  | nil =>
    obtain ⟨rfl, rfl⟩ := Prod.mk.inj (Except.ok.inj h)
    obtain rfl := hp.eq_none hq
    exact Ends.all.continues
  | cons word args ih =>
    by_cases hplain : isPlainWord word
    · cases awaiting with
      | some spec =>
        have hpending : p.pending = some (spec, none) := hp
        rw [read_plain hplain p args (.inl (by rw [Progress.isAwaiting, hpending]))] at h
        simp only [hpending] at h
        have hkept : Progress.Awaits { p with pending := some (spec, some word) } none := rfl
        obtain ⟨items, hitems⟩ := ih none hkept h
        exact ⟨word, args, items, rfl, hplain, hitems⟩
      | none =>
        rcases of_read_plain_eq_ok hplain hp h with ⟨hmem, rfl⟩ | ⟨spec, p', hspec, hp', hrest⟩
        · exact (Ends.command hmem).continues
        · exact (ih none hp' hrest).positional hspec hplain
    · rw [Bool.not_eq_true] at hplain
      by_cases hdashes : word = "--"
      · subst hdashes
        rw [hwf.read_dashes] at h
        obtain ⟨hawaiting, items, hends⟩ := of_read_trailing_eq_ok h hq
        obtain rfl := hp.eq_none hawaiting
        exact hends.continues
      · obtain ⟨hawaiting, own, awaits, p', hopens, hp', hrest⟩ :=
          hwf.exists_opens_of_read_eq_ok hplain hdashes h
        obtain rfl := hp.eq_none hawaiting
        exact hopens.continues (ih awaits hp' hrest)

/-- **What is read is spelled.** If `args` are read up to `next` and no value is missing at the end,
they spell some items. This is `continues_of_read_eq_ok` from the start. -/
theorem exists_spelled_of_read_eq_ok (hwf : level.WellFormed)
    (h : level.read false {} args = .ok (q, next)) (hq : q.isAwaiting = false) :
    ∃ items, level.Spelled args items next :=
  continues_of_read_eq_ok hwf hq none (holds_start level).isAwaiting h

end Read

end Level

/-! ## Arguments of a level without commands -/

section ReadAll

variable {level : Level} {args : List String} {items : List Item} {given : Given}

/-- **What is noted is what is spelled**, however it is spelled: `args` are read if the `items` may
be given together, and these are what is noted. -/
theorem Level.Spelled.readAll_eq_ok_iff (hwf : level.WellFormed)
    (h : level.Spelled args items none) :
    readAll level args = .ok given ↔ Admissible items ∧ given = .ofItems items := by
  obtain ⟨x, hx, hread⟩ := h.read_eq hwf
  rw [← noteAll_eq_ok_iff, ← hx.settle_eq_ok_iff, readAll, hread, bind_assoc]
  rfl

/-- **Arguments are read** just if they spell options that may be given together, and then these are
what is noted.

**Proof sketch.** What is read is spelled (`Level.exists_spelled_of_read_eq_ok`), up to the end
since there are no commands, and `Level.Spelled.readAll_eq_ok_iff` is for what is spelled. -/
theorem readAll_eq_ok_iff (hwf : level.WellFormed) (hcommands : level.commands = []) :
    readAll level args = .ok given ↔
      ∃ items, level.Spelled args items none ∧ Admissible items ∧ given = .ofItems items := by
  constructor
  · intro h
    obtain ⟨⟨p, next⟩, hread, hsettle⟩ := bind_eq_ok_iff.1 h
    obtain ⟨settled, hsettle, -⟩ := bind_eq_ok_iff.1 hsettle
    obtain ⟨items, hitems⟩ :=
      Level.exists_spelled_of_read_eq_ok hwf hread (Progress.of_settle_eq_ok hsettle).1
    obtain rfl : next = none := by
      obtain ⟨words, own, tail, last, -, -, hends, -⟩ := hitems
      cases hends with
      | all | dashes => rfl
      | command hmem =>
        rw [hcommands] at hmem
        cases hmem
    exact ⟨items, hitems, (hitems.readAll_eq_ok_iff hwf).1 h⟩
  · rintro ⟨items, hitems, hgiven⟩
    exact (hitems.readAll_eq_ok_iff hwf).2 hgiven

end ReadAll

end FirmwareBundle.CommandLine
