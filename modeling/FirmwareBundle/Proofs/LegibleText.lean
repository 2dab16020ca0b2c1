import FirmwareBundle.Proofs.FoldedText
/-!
# Texts that are read as they were written

Folding drops the spaces beside a break and makes a next line character into a space or a line feed,
and behind a break it refuses a document mark. A text without any of these is left as it is.

## Main definitions

* `FirmwareBundle.Yaml.Stands` — what may stand behind a space and behind a break.
* `FirmwareBundle.Yaml.Legible` — the texts that are read as they were written.

## Main results

* `FirmwareBundle.Yaml.fold?_eq_self_iff` — the texts that folding leaves as they are.
* `FirmwareBundle.Yaml.legible_iff` — a text is legible character by character.
* `FirmwareBundle.Yaml.legible_of_safeText` — a safe text is legible.
-/

namespace FirmwareBundle.Yaml

/-! ## What folding takes away -/

/-- A next line character does not stay one, and `c` does not become one. -/
private lemma unifyBreak_ne_nextLine (c : Char) : unifyBreak c ≠ nextLine := by
  rw [unifyBreak]
  split_ifs with h
  · decide
  · exact h

/-- There is no next line character in the gap. -/
def Gap.IsUnified : Gap → Prop
  | .none => True
  | .blanks text => nextLine ∉ text
  | .breaks first more => nextLine ∉ first ∧ nextLine ∉ more

namespace Gap

/-- Without a gap there is no next line character. -/
private lemma isUnified_none : Gap.none.IsUnified :=
  trivial

/-- A space brings no next line character in. -/
lemma IsUnified.blank {gap : Gap} (h : gap.IsUnified) : (gap.blank ' ').IsUnified := by
  have hspace : nextLine ≠ ' ' := by decide
  cases gap with
  | none => exact List.not_mem_cons_of_ne_of_not_mem hspace List.not_mem_nil
  | blanks text => exact List.not_mem_cons_of_ne_of_not_mem hspace h
  | breaks first more => exact h

/-- A unified break, that of `c`, brings no next line character in. -/
lemma IsUnified.newline {gap : Gap} (h : gap.IsUnified) (c : Char) :
    (gap.newline (unifyBreak c)).IsUnified := by
  have hne : nextLine ≠ unifyBreak c := (unifyBreak_ne_nextLine c).symm
  have hone : nextLine ∉ [unifyBreak c] := List.not_mem_cons_of_ne_of_not_mem hne List.not_mem_nil
  cases gap with
  | none => exact ⟨hone, List.not_mem_nil⟩
  | blanks text => exact ⟨hone, List.not_mem_nil⟩
  | breaks first more => exact ⟨h.1, List.not_mem_cons_of_ne_of_not_mem hne h.2⟩

/-- So there is none in what the `gap` stands for. -/
private lemma IsUnified.notMem_text {gap : Gap} (h : gap.IsUnified) : nextLine ∉ gap.text := by
  cases gap with
  | none => exact List.not_mem_nil
  | blanks text => exact fun hmem => h (List.mem_reverse.1 hmem)
  | breaks first more =>
    rw [Gap.text]
    split_ifs
    · decide
    · exact fun hmem => h.2 (List.mem_reverse.1 hmem)
    · rw [List.mem_append, List.mem_reverse, not_or]
      exact h

/-- A blank `c` makes the text of a `gap` longer by at most one character. -/
private lemma length_text_blank_le (gap : Gap) (c : Char) :
    (gap.blank c).text.length ≤ gap.text.length + 1 := by
  cases gap <;> simp [blank, text]

/-- So does a break `c`, also where the gap already has a break and its line feed is dropped for
it. -/
private lemma length_text_newline_le (gap : Gap) (c : Char) :
    (gap.newline c).text.length ≤ gap.text.length + 1 := by
  have hone : (Gap.breaks [c] []).text.length = 1 := by
    by_cases hc : [c] = ['\n'] <;> simp [text, hc]
  cases gap with
  | none => exact Nat.le_of_eq hone
  | blanks text => exact Nat.le_trans (Nat.le_of_eq hone) (Nat.le_add_left 1 _)
  | breaks first more =>
    by_cases hfirst : first = ['\n']
    · cases more <;> simp [newline, text, hfirst]
    · simp [newline, text, hfirst, Nat.add_assoc]

/-- A break `first` other than a line feed stays as it is, and so do those behind it. -/
private lemma text_breaks {first : Char} (h : first ≠ '\n') (more : List Char) :
    (Gap.breaks [first] more).text = first :: more.reverse := by
  simp [text, h]

end Gap

section Fold

variable {s t : List Char} {lineStart : Bool} {gap : Gap}

/-- No next line character is read.

**Proof sketch.** Induction on the text `s`. Whatever widens the `gap` leaves none in it
(`Gap.IsUnified.blank`, `Gap.IsUnified.newline`), and a character that is kept is none. -/
private lemma nextLine_notMem_of_foldFrom (hgap : gap.IsUnified)
    (h : foldFrom lineStart gap s = some t) : nextLine ∉ t := by
  induction s generalizing lineStart gap t with
  | nil =>
    obtain rfl := Option.some.inj h
    exact hgap.notMem_text
  | cons c s ih =>
    rw [foldFrom] at h
    split_ifs at h with hmark hspace hbreak
    · exact ih hgap.blank h
    · exact ih (hgap.newline c) h
    · obtain ⟨text, htext, rfl⟩ := Option.map_eq_some_iff.1 h
      have hc : nextLine ≠ c := by
        rintro rfl
        exact hbreak (by decide)
      rw [List.mem_append, List.mem_cons]
      rintro (hmem | rfl | hmem)
      · exact hgap.notMem_text hmem
      · exact hc rfl
      · exact ih Gap.isUnified_none htext hmem

/-- No more is read than was written: the text `t` is no longer than what the `gap` stands for and
`s` together.

**Proof sketch.** Induction on `s`. A space or a break makes the text of the gap longer by at most
one character (`Gap.length_text_blank_le`, `Gap.length_text_newline_le`), and any other is kept. -/
private lemma length_le_of_foldFrom (h : foldFrom lineStart gap s = some t) :
    t.length ≤ gap.text.length + s.length := by
  induction s generalizing lineStart gap t with
  | nil =>
    obtain rfl := Option.some.inj h
    exact Nat.le_add_right _ _
  | cons c s ih =>
    rw [List.length_cons]
    rw [foldFrom] at h
    split_ifs at h with hmark hspace hbreak
    · have hread := ih h
      have hgrow := gap.length_text_blank_le ' '
      omega
    · have hread := ih h
      have hgrow := gap.length_text_newline_le (unifyBreak c)
      omega
    · obtain ⟨text, htext, rfl⟩ := Option.map_eq_some_iff.1 h
      have hread := ih htext
      simp only [Gap.text, List.length_nil, List.length_append, List.length_cons] at hread ⊢
      omega

end Fold

/-! ## What folding leaves -/

/-- Whether `rest` may stand behind the character `c`: behind a space no break, behind a break no
space and no document mark. -/
def Stands (c : Char) (rest : List Char) : Prop :=
  (c = ' ' → ∀ d ∈ rest.head?, isRawBreak d = false) ∧
    (isRawBreak c = true → rest.head? ≠ some ' ' ∧ startsMark rest = false)

/-- Each character of the text `s` may stand where it does. -/
def Tidy (s : List Char) : Prop :=
  ∀ c rest, c :: rest <:+ s → Stands c rest

/-- The text `c :: s` is tidy if `s` may stand behind `c` and is tidy itself. -/
lemma tidy_cons {c : Char} {s : List Char} : Tidy (c :: s) ↔ Stands c s ∧ Tidy s := by
  constructor
  · intro h
    exact ⟨h c s (List.suffix_refl _), fun d rest hrest =>
      h d rest (hrest.trans (List.suffix_cons c s))⟩
  · rintro ⟨hc, hs⟩ d rest hrest
    rcases List.suffix_cons_iff.1 hrest with heq | hrest
    · obtain ⟨rfl, rfl⟩ := List.cons.inj heq
      exact hc
    · exact hs d rest hrest

/-- A space is no break. -/
private lemma isRawBreak_space : isRawBreak ' ' = false := by decide

/-- The state of folding behind a character of a text that is left as it is: in a word, among
spaces, or among breaks. -/
inductive Behind : Option Char → Bool → Gap → Prop
  | word {prev : Option Char} (solid : ∀ c ∈ prev, c ≠ ' ' ∧ isRawBreak c = false) :
    Behind prev false .none
  | spaces (text : List Char) : Behind (some ' ') false (.blanks (' ' :: text))
  | breaks {c first : Char} (broken : isRawBreak c = true) (kept : first ≠ '\n')
    (more : List Char) : Behind (some c) true (.breaks [first] more)

section Behind

variable {prev : Option Char} {lineStart : Bool} {gap : Gap} {c : Char} {s : List Char}

/-- Behind the character `c` of a word any text may stand. -/
private lemma stands_of_solid (h : c ≠ ' ' ∧ isRawBreak c = false) : Stands c s :=
  ⟨fun hspace => absurd hspace h.1, fun hbreak => by rw [h.2] at hbreak; cases hbreak⟩

/-- Behind a space no break may stand. -/
lemma stands_space_cons : Stands ' ' (c :: s) ↔ isRawBreak c = false := by
  simp [Stands, isRawBreak_space]

/-- Behind a break neither a space nor a document mark may stand. -/
lemma stands_break_cons {d : Char} (hd : isRawBreak d = true) :
    Stands d (c :: s) ↔ c ≠ ' ' ∧ startsMark (c :: s) = false := by
  have hspace : d ≠ ' ' := by
    rintro rfl
    cases hd
  simp [Stands, hspace, hd]

/-- A `text` that lost a character is not what was written (`length_le_of_foldFrom`). -/
private lemma foldFrom_ne_of_length_lt {text : List Char}
    (h : gap.text.length + s.length < text.length) : foldFrom lineStart gap s ≠ some text := by
  intro hfold
  have hread := length_le_of_foldFrom hfold
  omega

/-- The character `c` of a word is kept with the `gap` before it. -/
lemma foldFrom_solid_eq_iff (hmark : (lineStart && startsMark (c :: s)) = false)
    (hc : c ≠ ' ' ∧ isRawBreak c = false) :
    foldFrom lineStart gap (c :: s) = some (gap.text ++ c :: s) ↔
      foldFrom false .none s = some s := by
  rw [foldFrom, hmark, if_neg Bool.false_ne_true, if_neg (by simpa using hc.1), hc.2,
    if_neg Bool.false_ne_true, Option.map_eq_some_iff]
  simp

/-- A space widens the `gap`. -/
private lemma foldFrom_space (hmark : (lineStart && startsMark (' ' :: s)) = false) :
    foldFrom lineStart gap (' ' :: s) = foldFrom false (gap.blank ' ') s := by
  rw [foldFrom, hmark, if_neg Bool.false_ne_true, if_pos (beq_self_eq_true ' ')]

/-- So does a separator, a break `c` other than the next line character. -/
private lemma foldFrom_break (hmark : (lineStart && startsMark (c :: s)) = false)
    (hc : isRawBreak c = true) (hnext : c ≠ nextLine) :
    foldFrom lineStart gap (c :: s) = foldFrom true (gap.newline c) s := by
  have hspace : c ≠ ' ' := by
    rintro rfl
    cases hc
  rw [foldFrom, hmark, if_neg Bool.false_ne_true, if_neg (by simpa using hspace), if_pos hc,
    unifyBreak, if_neg hnext]

/-- A character `c` that may stand where it does is kept, and folding goes on in the state behind
it.

**Proof sketch.** Behind a word or spaces `c` may be anything but a break behind a space; behind a
break it is no space, and no document mark is there. So `c` widens the gap without loss
(`foldFrom_space`, `foldFrom_break`), or it ends it (`foldFrom_solid_eq_iff`). -/
private lemma Behind.exists_step (h : Behind prev lineStart gap) (hnext : c ≠ nextLine)
    (hstands : ∀ d ∈ prev, Stands d (c :: s)) :
    ∃ lineStart' gap', Behind (some c) lineStart' gap' ∧
      (foldFrom lineStart gap (c :: s) = some (gap.text ++ c :: s) ↔
        foldFrom lineStart' gap' s = some (gap'.text ++ s)) := by
  have hmark : (lineStart && startsMark (c :: s)) = false := by
    cases h with
    | word solid => rfl
    | spaces text => rfl
    | breaks broken kept more => exact ((stands_break_cons broken).1 (hstands _ rfl)).2
  by_cases hspace : c = ' '
  · subst hspace
    rw [foldFrom_space hmark]
    cases h with
    | word solid => exact ⟨_, _, .spaces [], Iff.rfl⟩
    | spaces text => exact ⟨_, _, .spaces (' ' :: text), by simp [Gap.blank, Gap.text]⟩
    | breaks broken kept more => exact absurd rfl ((stands_break_cons broken).1 (hstands _ rfl)).1
  by_cases hbreak : isRawBreak c = true
  · have hfeed : c ≠ '\n' := by
      rintro rfl
      exact absurd hbreak (by decide)
    rw [foldFrom_break hmark hbreak hnext]
    cases h with
    | word solid => exact ⟨_, _, .breaks hbreak hfeed [], by rw [Gap.text_breaks hfeed]; rfl⟩
    | spaces text =>
      rw [stands_space_cons.1 (hstands _ rfl)] at hbreak
      cases hbreak
    | breaks broken kept more =>
      exact ⟨_, _, .breaks hbreak kept (c :: more), by simp [Gap.newline, Gap.text_breaks kept]⟩
  · have hsolid : c ≠ ' ' ∧ isRawBreak c = false := ⟨hspace, Bool.not_eq_true _ ▸ hbreak⟩
    refine ⟨false, .none, .word fun d hd => ?_, foldFrom_solid_eq_iff hmark hsolid⟩
    obtain rfl := Option.some.inj hd
    exact hsolid

/-- Where the character `c` may not stand the text is refused or gets shorter.

**Proof sketch.** A break behind a space drops the space, a space behind a break is dropped itself,
and what is read is then too short (`foldFrom_ne_of_length_lt`). A document mark behind a break is
refused. -/
private lemma Behind.foldFrom_ne (h : Behind prev lineStart gap) (hnext : c ≠ nextLine)
    (hstands : ¬∀ d ∈ prev, Stands d (c :: s)) :
    foldFrom lineStart gap (c :: s) ≠ some (gap.text ++ c :: s) := by
  cases h with
  | word solid => exact absurd (fun d hd => stands_of_solid (solid d hd)) hstands
  | spaces text =>
    have hbreak : isRawBreak c = true := by
      simpa [stands_space_cons] using hstands
    rw [foldFrom_break rfl hbreak hnext]
    refine foldFrom_ne_of_length_lt ?_
    have hone := Gap.length_text_newline_le .none c
    simp only [Gap.newline, Gap.text, List.length_nil, List.length_append, List.length_reverse,
      List.length_cons] at hone ⊢
    omega
  | breaks broken kept more =>
    by_cases hmark : startsMark (c :: s) = true
    · rw [foldFrom, Bool.true_and, if_pos hmark]
      exact (Option.some_ne_none _).symm
    · have hspace : c = ' ' := by
        simpa [stands_break_cons broken, hmark] using hstands
      subst hspace
      rw [foldFrom_space (by simpa using hmark)]
      refine foldFrom_ne_of_length_lt ?_
      simp only [Gap.blank, Gap.text_breaks kept, List.length_append, List.length_cons]
      omega

/-- Behind a character `prev` a text `s` without next line characters is left as it is if and only
if it may stand there and is tidy.

**Proof sketch.** Induction on `s`, one character a step: where it may stand, folding goes on behind
it (`Behind.exists_step`), and where it may not, the text is not left as it is
(`Behind.foldFrom_ne`). -/
lemma Behind.foldFrom_eq_self_iff (h : Behind prev lineStart gap) (hs : nextLine ∉ s) :
    foldFrom lineStart gap s = some (gap.text ++ s) ↔ (∀ c ∈ prev, Stands c s) ∧ Tidy s := by
  induction s generalizing prev lineStart gap with
  | nil =>
    have hnil : ∀ c, Stands c [] := fun c => ⟨fun _ => nofun, fun _ => ⟨nofun, rfl⟩⟩
    have htidy : Tidy [] := fun c rest hrest => by cases List.suffix_nil.1 hrest
    rw [foldFrom, List.append_nil]
    exact iff_of_true rfl ⟨fun c _ => hnil c, htidy⟩
  | cons c s ih =>
    rw [List.mem_cons, not_or] at hs
    obtain ⟨hnext, hs⟩ := hs
    by_cases hstands : ∀ d ∈ prev, Stands d (c :: s)
    · obtain ⟨lineStart', gap', hbehind, hstep⟩ := h.exists_step (Ne.symm hnext) hstands
      rw [hstep, ih hbehind hs, and_iff_right hstands, tidy_cons]
      simp
    · exact iff_of_false (h.foldFrom_ne (Ne.symm hnext) hstands) fun hright => hstands hright.1

end Behind

/-! ## Legible texts -/

/-- **The texts that folding leaves as they are** have no next line character and are tidy. No next
line character is read (`nextLine_notMem_of_foldFrom`), and for texts without one this is
`Behind.foldFrom_eq_self_iff` at the start. -/
theorem fold?_eq_self_iff {s : List Char} : fold? s = some s ↔ nextLine ∉ s ∧ Tidy s := by
  have hbehind : Behind none false .none := .word fun c hc => by cases hc
  constructor
  · intro h
    have hnext : nextLine ∉ s := nextLine_notMem_of_foldFrom Gap.isUnified_none h
    exact ⟨hnext, ((hbehind.foldFrom_eq_self_iff hnext).1 h).2⟩
  · rintro ⟨hnext, htidy⟩
    exact (hbehind.foldFrom_eq_self_iff hnext).2 ⟨nofun, htidy⟩

/-- The text `s` is read as it was written: it has no forbidden character, and folding leaves it as
it is. -/
def Legible (s : String) : Prop :=
  (∀ c ∈ s.toList, ¬Json.IsForbidden c) ∧ foldText? s = some s

instance : DecidablePred Legible := fun s =>
  @instDecidableAnd _ _ (List.decidableBAll (fun c => ¬Json.IsForbidden c) s.toList)
    (inferInstanceAs (Decidable (foldText? s = some s)))

/-- The text `s` is folded as its characters are. -/
lemma foldText?_eq_self_iff {s : String} :
    foldText? s = some s ↔ fold? s.toList = some s.toList := by
  rw [foldText?, Option.map_eq_some_iff]
  constructor
  · rintro ⟨text, htext, rfl⟩
    rw [htext, String.toList_ofList]
  · intro h
    exact ⟨s.toList, h, String.ofList_toList⟩

/-- **A text is legible** if and only if, at each place in it, the character `c` is neither
forbidden nor a next line character and may have `rest` behind it: no break has a space on either
side, and no document mark stands behind a break.

**Proof sketch.** By `fold?_eq_self_iff` folding leaves `s` as it is if it is tidy and has no next
line character. The characters of `s` are those that stand at some place. -/
theorem legible_iff {s : String} : Legible s ↔ ∀ c rest, c :: rest <:+ s.toList →
    ¬Json.IsForbidden c ∧ c ≠ nextLine ∧ Stands c rest := by
  rw [Legible, foldText?_eq_self_iff, fold?_eq_self_iff]
  constructor
  · rintro ⟨hallowed, hnext, htidy⟩ c rest hrest
    have hmem : c ∈ s.toList := hrest.subset List.mem_cons_self
    exact ⟨hallowed c hmem, fun heq => hnext (heq ▸ hmem), htidy c rest hrest⟩
  · intro h
    have hmem : ∀ c ∈ s.toList, ¬Json.IsForbidden c ∧ c ≠ nextLine := by
      intro c hc
      obtain ⟨before, rest, heq⟩ := List.append_of_mem hc
      obtain ⟨hallowed, hnext, -⟩ := h c rest ⟨before, heq.symm⟩
      exact ⟨hallowed, hnext⟩
    exact ⟨fun c hc => (hmem c hc).1, fun hnext => (hmem _ hnext).2 rfl,
      fun c rest hrest => (h c rest hrest).2.2⟩

/-- A safe text `s` is legible.

**Proof sketch.** By `legible_iff` each character is looked at where it stands. It is not forbidden
(`Json.not_isForbidden_of_isSafe`), and no character of the text is a break, so anything may stand
behind it. -/
theorem legible_of_safeText {s : String} (hs : SafeText s) : Legible s := by
  have hbreak : ∀ c ∈ s.toList, isRawBreak c = false := by
    intro c hc
    rw [← Bool.not_eq_true]
    intro h
    have hsafe := hs c hc
    simp only [isRawBreak, Bool.or_eq_true, beq_iff_eq] at h
    rcases h with (rfl | rfl) | rfl <;> exact absurd hsafe (by decide)
  refine legible_iff.2 fun c rest hrest => ?_
  have hmem : ∀ d ∈ c :: rest, d ∈ s.toList := fun d hd => hrest.subset hd
  have hc : isRawBreak c = false := hbreak c (hmem c List.mem_cons_self)
  refine ⟨Json.not_isForbidden_of_isSafe (hs c (hmem c List.mem_cons_self)), ?_, ?_, ?_⟩
  · rintro rfl
    exact absurd hc (by decide)
  · exact fun _ d hd => hbreak d (hmem d (List.mem_cons_of_mem c (List.mem_of_mem_head? hd)))
  · intro h
    rw [hc] at h
    cases h

end FirmwareBundle.Yaml
