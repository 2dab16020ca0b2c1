import FirmwareBundle.CommandLine.Invocation
import FirmwareBundle.Proofs.Results
import Mathlib.Data.List.Induction
import Mathlib.Data.List.TakeWhile
/-!
# How arguments are spelled

The same options can be spelled in many ways: with their long names or with letters that share a
word, with the value in the same word or in the next one, in any order, and with positional
arguments in between. Here the spellings are described without reading anything.

## Main definitions

* `FirmwareBundle.CommandLine.Admissible` — options that may be given together.
* `FirmwareBundle.CommandLine.Level.Opens` — what one word of options spells.
* `FirmwareBundle.CommandLine.Level.Spells` — what words spell.
* `FirmwareBundle.CommandLine.Level.Spelled` — what arguments spell, up to their end or to the name
  of a command.
* `FirmwareBundle.CommandLine.Level.WellFormed` — the names and letters of a level are distinct and
  can be spelled.

## Main results

* `FirmwareBundle.CommandLine.noteAll_eq_ok_iff` — options are noted if they may be given together.
* `FirmwareBundle.CommandLine.Admissible.value?_eq_some_iff` — the value that is found for a name.
* `FirmwareBundle.CommandLine.Level.Spelled.known` — only what is known can be spelled.
-/

namespace FirmwareBundle.CommandLine

/-! ## Items -/

/-- An option or a positional argument with the value it is given. An option that takes none has the
empty value. -/
abbrev Item := OptionSpec × String

/-- What is noted for `items`: the name of each with its value. -/
def Given.ofItems (items : List Item) : Given :=
  items.map fun item => (item.1.name, item.2)

/-- Notes `items` one after the other. -/
def noteAll (items : List Item) : Except UsageFault Given :=
  items.foldlM (fun given item => given.note item.1 item.2) []

/-- The `items` that may be given together: all but counters at most once, and paths that are not
empty. -/
structure Admissible (items : List Item) : Prop where
  once : items.Pairwise fun item later => later.1.kind ≠ .counter → item.1.name ≠ later.1.name
  nonempty : ∀ item ∈ items, item.1.kind = .path → item.2 ≠ ""

section Items

variable {items more : List Item} {item : Item} {spec : OptionSpec} {given : Given}
  {name value : String}

/-- The `name` is noted if there is an item of that name. -/
lemma Given.has_ofItems_iff :
    (ofItems items).has name ↔ ∃ item ∈ items, item.1.name = name := by
  simp [ofItems, has]

/-- The last item, `value` for `spec`, is noted after the others. -/
lemma noteAll_concat (items : List Item) (spec : OptionSpec) (value : String) :
    noteAll (items ++ [(spec, value)]) = (noteAll items).bind (·.note spec value) := by
  rw [noteAll, List.foldlM_append]
  refine congrArg (Except.bind _) (funext fun given => ?_)
  rw [List.foldlM_cons]
  cases given.note spec value <;> rfl

/-- If `items ++ more` are noted, `items` by themselves are. -/
lemma exists_noteAll_of_append (h : noteAll (items ++ more) = .ok given) :
    ∃ before, noteAll items = .ok before := by
  rw [noteAll, List.foldlM_append] at h
  obtain ⟨before, hbefore, -⟩ := bind_eq_ok_iff.1 h
  exact ⟨before, hbefore⟩

/-- The `value` for `spec` is noted behind what is `given` if the name is new, or may be repeated,
and if a path is not empty. -/
lemma Given.note_eq_ok_iff {given' : Given} :
    given.note spec value = .ok given' ↔
      (spec.kind ≠ .counter → ¬given.has spec.name) ∧ (spec.kind = .path → value ≠ "") ∧
        given' = given ++ [(spec.name, value)] := by
  rw [Given.note]
  split
  · rename_i h
    simp [h.1, h.2]
  · rename_i hhas
    rw [not_and] at hhas
    split
    · rename_i h
      simp [h.1, h.2]
    · rename_i hpath
      rw [not_and] at hpath
      exact ⟨fun h => ⟨hhas, hpath, (Except.ok.inj h).symm⟩,
        fun h => congrArg Except.ok h.2.2.symm⟩

/-- The items before the last one and the last `item` may be given together if those before may, and
`item` may be given with them. -/
lemma admissible_concat_iff :
    Admissible (items ++ [item]) ↔ Admissible items ∧
      (item.1.kind ≠ .counter → ∀ other ∈ items, other.1.name ≠ item.1.name) ∧
      (item.1.kind = .path → item.2 ≠ "") := by
  constructor
  · rintro ⟨honce, hnonempty⟩
    rw [List.pairwise_append] at honce
    rw [List.forall_mem_append, List.forall_mem_singleton] at hnonempty
    exact ⟨⟨honce.1, hnonempty.1⟩,
      fun hkind other hother => honce.2.2 other hother item List.mem_cons_self hkind, hnonempty.2⟩
  · rintro ⟨⟨honce, hnonempty⟩, hlast, hpath⟩
    refine ⟨List.pairwise_append.2 ⟨honce, List.pairwise_singleton _ _, ?_⟩, ?_⟩
    · intro other hother later hlater hkind
      obtain rfl := List.mem_singleton.1 hlater
      exact hlast hkind other hother
    · rw [List.forall_mem_append, List.forall_mem_singleton]
      exact ⟨hnonempty, hpath⟩

/-- **Items are noted** just if they may be given together, and then as they are.

**Proof sketch.** Induction on `items` from the end. The last item is noted after the others
(`noteAll_concat`), under the conditions of `Given.note_eq_ok_iff`, and these are the ones of
`admissible_concat_iff`. -/
theorem noteAll_eq_ok_iff :
    noteAll items = .ok given ↔ Admissible items ∧ given = .ofItems items := by
  induction items using List.reverseRecOn generalizing given with
  | nil =>
    refine ⟨fun h => ⟨⟨.nil, nofun⟩, (Except.ok.inj h).symm⟩, ?_⟩
    rintro ⟨-, rfl⟩
    rfl
  | append_singleton items item ih =>
    have hconcat : Given.ofItems (items ++ [item]) =
        .ofItems items ++ [(item.1.name, item.2)] := List.map_append
    have hnote := bind_eq_ok_iff (x := noteAll items) (f := (·.note item.1 item.2)) (b := given)
    rw [noteAll_concat, admissible_concat_iff, hconcat]
    refine hnote.trans ⟨?_, ?_⟩
    · rintro ⟨before, hbefore, h⟩
      obtain ⟨hadmissible, rfl⟩ := ih.1 hbefore
      obtain ⟨hhas, hpath, rfl⟩ := Given.note_eq_ok_iff.1 h
      refine ⟨⟨hadmissible, fun hkind other hother hname => hhas hkind ?_, hpath⟩, rfl⟩
      exact Given.has_ofItems_iff.2 ⟨other, hother, hname⟩
    · rintro ⟨⟨hadmissible, hlast, hpath⟩, rfl⟩
      refine ⟨_, ih.2 ⟨hadmissible, rfl⟩, Given.note_eq_ok_iff.2 ⟨fun hkind hhas => ?_, hpath, rfl⟩⟩
      obtain ⟨other, hother, hname⟩ := Given.has_ofItems_iff.1 hhas
      exact hlast hkind other hother hname

/-- The `name` is noted if a value is found for it. -/
lemma Given.isSome_value? (given : Given) (name : String) :
    (given.value? name).isSome = given.has name := by
  rw [value?, has]
  induction given with
  | nil => rfl
  | cons entry given ih =>
    rw [List.lookup_cons, List.any_cons, Bool.beq_comm]
    cases entry.1 == name with
    | false => exact ih
    | true => rfl

/-- **The value that is found** for `name` is the one that is noted, unless the name may be
repeated.

**Proof sketch.** Induction on `items`. The search finds the first item of this name. By
`Admissible.once` there is no other, since the name is not that of a counter. -/
theorem Admissible.value?_eq_some_iff (h : Admissible items)
    (hkind : ∀ item ∈ items, item.1.name = name → item.1.kind ≠ .counter) :
    (Given.ofItems items).value? name = some value ↔ (name, value) ∈ Given.ofItems items := by
  obtain ⟨honce, -⟩ := h
  induction items with
  | nil => exact ⟨nofun, nofun⟩
  | cons item items ih =>
    rw [List.pairwise_cons] at honce
    rw [List.forall_mem_cons] at hkind
    rw [Given.value?, Given.ofItems, List.map_cons, List.lookup_cons, List.mem_cons]
    by_cases hname : name = item.1.name
    · subst hname
      rw [beq_self_eq_true, Option.some.injEq, Prod.mk.injEq]
      constructor
      · rintro rfl
        exact .inl ⟨rfl, rfl⟩
      · rintro (⟨-, rfl⟩ | hmem)
        · rfl
        · -- The same name is not noted again.
          obtain ⟨later, hlater, heq⟩ := List.mem_map.1 hmem
          have hlaterName : later.1.name = item.1.name := congrArg Prod.fst heq
          exact absurd hlaterName.symm (honce.1 later hlater (hkind.2 later hlater hlaterName))
    · rw [beq_false_of_ne hname]
      refine (ih hkind.2 honce.2).trans ⟨.inr, ?_⟩
      rintro (heq | hmem)
      · exact absurd (congrArg Prod.fst heq) hname
      · exact hmem

end Items

/-! ## Spellings -/

/-- Whether options of this kind are switched on, once or several times. -/
def OptionKind.isSwitch : OptionKind → Bool
  | .flag | .counter => true
  | _ => false

/-- Switches take no value. -/
lemma OptionKind.takesValue_eq_false {kind : OptionKind} (h : kind.isSwitch) :
    kind.takesValue = false := by
  cases kind with
  | flag | counter | help | version => rfl
  | text | path => cases h

/-- Whether `word` is not one of options: it does not start with a dash, or is only one. -/
def isPlainWord (word : String) : Bool :=
  match word.toList with
  | '-' :: _ :: _ => false
  | _ => true

/-- The `word` is one of options if it starts with a dash and does not end there. -/
lemma isPlainWord_eq_false_iff {word : String} :
    isPlainWord word = false ↔ ∃ c rest, word.toList = '-' :: c :: rest := by
  rw [isPlainWord]
  split
  · rename_i c rest hword
    exact ⟨fun _ => ⟨c, rest, hword⟩, fun _ => rfl⟩
  · rename_i hword
    exact ⟨nofun, fun ⟨c, rest, h⟩ => absurd h (hword c rest)⟩

/-- The element `x` is found if it is the only one of `xs` that is looked for. -/
private lemma find?_eq_some_of_pairwise {α : Type} {f : α → Bool} {xs : List α} {x : α}
    (h : xs.Pairwise fun y z => f y → ¬f z) (hmem : x ∈ xs) (hx : f x) : xs.find? f = some x := by
  induction xs with
  | nil => cases hmem
  | cons y xs ih =>
    rw [List.pairwise_cons] at h
    rcases List.mem_cons.1 hmem with rfl | hmem
    · exact List.find?_cons_of_pos hx
    · rw [List.find?_cons_of_neg (fun hy => h.1 x hmem hy hx)]
      exact ih h.2 hmem

namespace Level

/-- What letters that share a word spell, and the option whose value is the next word, if there is
one. The letter of a switch may stand before others. One that takes a value has it in the rest of
the word (`joined`, `equals`) or in the next word (`separate`). -/
inductive Cluster (level : Level) : List Char → List Item → Option OptionSpec → Prop
  | nil : level.Cluster [] [] none
  | switch {spec : OptionSpec} {c : Char} {cs : List Char} {items : List Item}
      {awaiting : Option OptionSpec} (hmem : spec ∈ level.options) (hletter : spec.letter = some c)
      (hkind : spec.kind.isSwitch) (hrest : level.Cluster cs items awaiting) :
      level.Cluster (c :: cs) ((spec, "") :: items) awaiting
  | joined {spec : OptionSpec} {c : Char} {value : List Char} (hmem : spec ∈ level.options)
      (hletter : spec.letter = some c) (hkind : spec.kind.takesValue) (hvalue : value ≠ [])
      (hequals : value.head? ≠ some '=') :
      level.Cluster (c :: value) [(spec, String.ofList value)] none
  | equals {spec : OptionSpec} {c : Char} (value : List Char) (hmem : spec ∈ level.options)
      (hletter : spec.letter = some c) (hkind : spec.kind.takesValue) :
      level.Cluster (c :: '=' :: value) [(spec, String.ofList value)] none
  | separate {spec : OptionSpec} {c : Char} (hmem : spec ∈ level.options)
      (hletter : spec.letter = some c) (hkind : spec.kind.takesValue) :
      level.Cluster [c] [] (some spec)

/-- What a word of options spells, and the option whose value is the next word, if there is one: a
long name, alone or with a value, or letters that share the word. -/
inductive Opens (level : Level) : String → List Item → Option OptionSpec → Prop
  | switch {spec : OptionSpec} (hmem : spec ∈ level.options) (hkind : spec.kind.isSwitch) :
      level.Opens ("--" ++ spec.name) [(spec, "")] none
  | equals {spec : OptionSpec} (value : String) (hmem : spec ∈ level.options)
      (hkind : spec.kind.takesValue) :
      level.Opens ("--" ++ spec.name ++ "=" ++ value) [(spec, value)] none
  | separate {spec : OptionSpec} (hmem : spec ∈ level.options) (hkind : spec.kind.takesValue) :
      level.Opens ("--" ++ spec.name) [] (some spec)
  | letters {cs : List Char} {items : List Item} {awaiting : Option OptionSpec} (hne : cs ≠ [])
      (hcluster : level.Cluster cs items awaiting) :
      level.Opens (String.ofList ('-' :: cs)) items awaiting

/-- What words spell, one after the other: options, their values, and positional arguments. -/
inductive Spells (level : Level) : List String → List Item → Prop
  | nil : level.Spells [] []
  | positional {spec : OptionSpec} {word : String} {words : List String} {items : List Item}
      (hspec : level.positional = some spec) (hplain : isPlainWord word)
      (hrest : level.Spells words items) :
      level.Spells (word :: words) ((spec, word) :: items)
  | options {word : String} {words : List String} {own items : List Item}
      (hopens : level.Opens word own none) (hrest : level.Spells words items) :
      level.Spells (word :: words) (own ++ items)
  | separate {spec : OptionSpec} {word value : String} {words : List String}
      {own items : List Item} (hopens : level.Opens word own (some spec))
      (hplain : isPlainWord value) (hrest : level.Spells words items) :
      level.Spells (word :: value :: words) (own ++ (spec, value) :: items)

/-- Where the options end: at the end of the arguments, at two dashes, behind which there are only
positional arguments, or at the name of a command. -/
inductive Ends (level : Level) : List String → List Item → Option (String × List String) → Prop
  | all : level.Ends [] [] none
  | dashes {words : List String} {items : List Item}
      (hitems : List.Forall₂ (fun word item => level.positional = some item.1 ∧ item.2 = word)
        words items) :
      level.Ends ("--" :: words) items none
  | command {name : String} {args : List String} (hmem : name ∈ level.commands) :
      level.Ends (name :: args) [] (some (name, args))

/-- The `items` that `args` spell, up to their end or to the name of a command with the arguments
behind it (`next`). -/
def Spelled (level : Level) (args : List String) (items : List Item)
    (next : Option (String × List String)) : Prop :=
  ∃ words own tail last, args = words ++ tail ∧ level.Spells words own ∧
    level.Ends tail last next ∧ items = own ++ last

/-- The names and letters of the options of `level` are distinct and can be spelled, a positional
argument is no counter and does not stand where commands do, and commands do not look like
options. -/
structure WellFormed (level : Level) : Prop where
  names : level.options.Pairwise (·.name ≠ ·.name)
  letters : level.options.Pairwise fun spec other =>
    spec.letter = none ∨ spec.letter ≠ other.letter
  spellable : ∀ spec ∈ level.options,
    spec.name ≠ "" ∧ '=' ∉ spec.name.toList ∧ spec.letter ≠ some '-'
  positional : ∀ spec, level.positional = some spec →
    spec.kind ≠ .counter ∧ level.commands = []
  commands : ∀ name ∈ level.commands, isPlainWord name

/-! ### Words and their options -/

/-- The text that gives a value in the word of an option: it stands behind an equals sign. -/
def valueText : Option String → List Char
  | none => []
  | some value => '=' :: value.toList

/-- A word is split at its first equals sign, so the `name` must have none, while `value` may. -/
lemma splitValue_append {name : String} (h : '=' ∉ name.toList) (value : Option String) :
    splitValue (name.toList ++ valueText value) = (name, value) := by
  have htake : (name.toList ++ valueText value).takeWhile (· != '=') = name.toList := by
    rw [List.takeWhile_append_of_pos]
    · cases value <;> simp [valueText]
    · exact fun c hc => bne_iff_ne.2 fun heq => h (heq ▸ hc)
  rw [splitValue, htake, List.drop_left, String.ofList_toList]
  cases value with
  | none => rfl
  | some value => simp [valueText]

/-- A `word` that is split is put together of its parts `name` and `value`. -/
lemma splitValue_eq_iff {word : List Char} {name : String} {value : Option String} :
    splitValue word = (name, value) ↔
      '=' ∉ name.toList ∧ word = name.toList ++ valueText value := by
  refine ⟨fun h => ?_, fun ⟨hname, hword⟩ => hword ▸ splitValue_append hname value⟩
  obtain ⟨front, rest, hfront, rfl⟩ : ∃ (front : String) (rest : Option String),
      '=' ∉ front.toList ∧ word = front.toList ++ valueText rest := by
    by_cases hmem : '=' ∈ word
    · obtain ⟨front, rest, rfl, hfront⟩ := List.eq_append_cons_of_mem hmem
      exact ⟨String.ofList front, some (String.ofList rest), by simpa using hfront,
        by simp [valueText]⟩
    · exact ⟨String.ofList word, none, by simpa using hmem, by simp [valueText]⟩
  obtain ⟨rfl, rfl⟩ := Prod.mk.inj ((splitValue_append hfront rest).symm.trans h)
  exact ⟨hfront, rfl⟩

section Words

variable {level : Level} {items own : List Item} {spec : OptionSpec} {c : Char} {cs : List Char}
  {awaiting : Option OptionSpec} {word : String} {args : List String}

/-- The option `spec` is found by its name, since no other has it. -/
lemma WellFormed.find?_name (hwf : level.WellFormed) (hmem : spec ∈ level.options) :
    level.options.find? (·.name == spec.name) = some spec := by
  refine find?_eq_some_of_pairwise (hwf.names.imp fun hne hname hother => hne ?_) hmem (by simp)
  exact (beq_iff_eq.1 hname).trans (beq_iff_eq.1 hother).symm

/-- The option `spec` is found by its letter `c`, since no other has it. -/
lemma WellFormed.find?_letter (hwf : level.WellFormed) (hmem : spec ∈ level.options)
    (hletter : spec.letter = some c) : level.options.find? (·.letter == some c) = some spec := by
  refine find?_eq_some_of_pairwise (hwf.letters.imp fun hne hone hother => ?_) hmem
    (by simp [hletter])
  rw [beq_iff_eq] at hone hother
  rw [hone, hother] at hne
  simp at hne

/-- The option `spec` that is found by the letter `c` has it. -/
lemma of_find?_letter (h : level.options.find? (·.letter == some c) = some spec) :
    spec ∈ level.options ∧ spec.letter = some c :=
  ⟨List.mem_of_find?_eq_some h, by simpa using List.find?_some h⟩

/-- Letters that share a word do not start with a dash, which is the letter of no option. -/
lemma Cluster.head_ne (hwf : level.WellFormed) (h : level.Cluster (c :: cs) own awaiting) :
    c ≠ '-' := by
  have hletter : ∀ spec ∈ level.options, spec.letter = some c → c ≠ '-' := by
    rintro spec hmem hletter rfl
    exact (hwf.spellable spec hmem).2.2 hletter
  cases h with
  | switch hmem h | joined hmem h | equals _ hmem h | separate hmem h => exact hletter _ hmem h

/-! ### Known options -/

/-- The option `spec` is one of `level`, or its positional argument. -/
def Knows (level : Level) (spec : OptionSpec) : Prop :=
  spec ∈ level.options ∨ level.positional = some spec

/-- Letters spell options of `level`, and the one that is `awaiting` its value is one, too. -/
lemma Cluster.known (h : level.Cluster cs own awaiting) :
    (∀ item ∈ own, level.Knows item.1) ∧ ∀ spec ∈ awaiting, level.Knows spec := by
  induction h with
  | nil => exact ⟨nofun, nofun⟩
  | switch hmem _ _ _ ih => exact ⟨List.forall_mem_cons.2 ⟨.inl hmem, ih.1⟩, ih.2⟩
  | joined hmem | equals _ hmem => exact ⟨List.forall_mem_singleton.2 (.inl hmem), nofun⟩
  | separate hmem => exact ⟨nofun, fun _ h => .inl (Option.some.inj h ▸ hmem)⟩

/-- A word of options spells options of `level`, and the one that is `awaiting` its value is one,
too. -/
lemma Opens.known (h : level.Opens word own awaiting) :
    (∀ item ∈ own, level.Knows item.1) ∧ ∀ spec ∈ awaiting, level.Knows spec := by
  cases h with
  | switch hmem | equals _ hmem => exact ⟨List.forall_mem_singleton.2 (.inl hmem), nofun⟩
  | separate hmem => exact ⟨nofun, fun _ h => .inl (Option.some.inj h ▸ hmem)⟩
  | letters _ hcluster => exact hcluster.known

/-- **Only what is known is spelled**: every item belongs to an option of `level` or to its
positional argument.

**Proof sketch.** Induction on the words up to the end of the options, with `Level.Opens.known` for
a word of options. Behind two dashes there are positional arguments only. -/
theorem Spelled.known {next : Option (String × List String)} (h : level.Spelled args items next) :
    ∀ item ∈ items, level.Knows item.1 := by
  obtain ⟨words, own, tail, last, -, hspells, hends, rfl⟩ := h
  refine List.forall_mem_append.2 ⟨?_, ?_⟩
  · clear hends
    induction hspells with
    | nil => exact nofun
    | positional hspec _ _ ih => exact List.forall_mem_cons.2 ⟨.inr hspec, ih⟩
    | options hopens _ ih => exact List.forall_mem_append.2 ⟨hopens.known.1, ih⟩
    | separate hopens _ _ ih =>
      exact List.forall_mem_append.2 ⟨hopens.known.1,
        List.forall_mem_cons.2 ⟨hopens.known.2 _ rfl, ih⟩⟩
  · cases hends with
    | all | command => exact nofun
    | dashes hitems =>
      induction hitems with
      | nil => exact nofun
      | cons hitem _ ih => exact List.forall_mem_cons.2 ⟨.inr hitem.1, ih⟩

end Words

end Level

end FirmwareBundle.CommandLine
