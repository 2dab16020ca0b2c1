import FirmwareBundle.Proofs.JsonTree
/-!
# Texts that are folded

A text is written between quotes with only its quotes, its backslashes and the control characters
below the space escaped, so the breaks above it, the next line character and the two separators, are
breaks of the document. They are folded with the spaces around them, and behind one of them a
document mark may stand, which is refused.

## Main definitions

* `FirmwareBundle.Yaml.fold?` — what is read of a text that was written between quotes.
* `FirmwareBundle.Json.fold?` — what is read of a value.

## Main results

* `FirmwareBundle.Yaml.readQuoted_written` — text between quotes is folded.
* `FirmwareBundle.Json.Shaped.fold?` — what is read of a value has its shape.
-/

namespace FirmwareBundle.Yaml

/-! ## Breaks that are not escaped -/

/-- The character `c`, or a line feed if it is the next line character. -/
def unifyBreak (c : Char) : Char :=
  if c = nextLine then '\n' else c

/-- Whether `c` is one of the breaks that are written as they are. -/
def isRawBreak (c : Char) : Bool :=
  c == nextLine || c == lineSeparator || c == paragraphSeparator

/-- A `text` without carriage returns has its breaks unified one by one. -/
lemma unifyBreaks_eq_map {text : List Char} (h : '\r' ∉ text) :
    unifyBreaks text = text.map unifyBreak := by
  induction text with
  | nil => rfl
  | cons c rest ih =>
    rw [List.mem_cons, not_or] at h
    obtain ⟨hc, hrest⟩ := h
    rw [unifyBreaks, ih hrest]
    · simp [unifyBreak, Ne.symm hc]
    · rintro rest' rfl -
      exact hc rfl

/-- A mark `c` keeps its break. -/
lemma unifyBreak_of_isMark {c : Char} (h : Json.IsMark c) : unifyBreak c = c := by
  rw [unifyBreak, if_neg]
  rintro rfl
  exact absurd h (by decide)

/-- A `text` of marks keeps its breaks. -/
lemma map_unifyBreak_of_isMark {text : List Char} (h : ∀ c ∈ text, Json.IsMark c) :
    text.map unifyBreak = text := by
  have hmap := List.map_congr_left fun c hc => unifyBreak_of_isMark (h c hc)
  rwa [List.map_id'] at hmap

section Plain

variable {c : Char} (hc : Json.writeChar c = [c])

include hc

/-- Of the characters `c` that are written as they are only the space is a blank. -/
private lemma isBlank_unifyBreak : isBlank (unifyBreak c) = (c == ' ') := by
  have htab : c ≠ '\t' := by
    rintro rfl
    cases hc
  rw [unifyBreak]
  split_ifs with hnext
  · subst hnext
    decide
  · simp [isBlank, htab]

/-- Of the characters `c` that are written as they are only the raw breaks are breaks. -/
private lemma isBreak_unifyBreak : isBreak (unifyBreak c) = isRawBreak c := by
  have hfeed : c ≠ '\n' := by
    rintro rfl
    cases hc
  rw [unifyBreak]
  split_ifs with hnext
  · subst hnext
    decide
  · rw [isBreak, isRawBreak, beq_eq_false_iff_ne.2 hfeed, beq_eq_false_iff_ne.2 hnext]

end Plain

/-- A character `c` that is escaped is no white space of the document. -/
private lemma not_blank_of_writeChar_ne {c : Char} (hc : Json.writeChar c ≠ [c]) :
    c ≠ ' ' ∧ isRawBreak c = false := by
  constructor
  · rintro rfl
    exact hc rfl
  · rw [← Bool.not_eq_true]
    intro h
    simp only [isRawBreak, Bool.or_eq_true, beq_iff_eq] at h
    rcases h with (rfl | rfl) | rfl <;> exact hc rfl

/-! ## Folding -/

/-- Whether a text starts with a document mark once it is written between quotes: three equal marks
with white space behind them that is not escaped. -/
def startsMark : List Char → Bool
  | a :: b :: c :: d :: _ =>
    (a == '-' || a == '.') && b == a && c == a && (d == ' ' || isRawBreak d)
  | _ => false

/-- What is read of a text that was written between quotes, behind the white space of the gap and,
if `lineStart` holds, at the start of a line. A space or a raw break widens the gap; any other
character keeps what the gap stands for before it. -/
def foldFrom : (lineStart : Bool) → Gap → List Char → Option (List Char)
  | _, gap, [] => some gap.text
  | lineStart, gap, c :: rest =>
    if lineStart && startsMark (c :: rest) then none
    else if c == ' ' then foldFrom false (gap.blank ' ') rest
    else if isRawBreak c then foldFrom true (gap.newline (unifyBreak c)) rest
    else (foldFrom false .none rest).map fun text => gap.text ++ c :: text

/-- What is read of a `text` that was written between quotes, unless a document mark stands in
it. -/
def fold? (text : List Char) : Option (List Char) :=
  foldFrom false .none text

/-- The text `s` starts with a document mark if it starts with three equal marks `m` and white space
`d`. -/
lemma startsMark_iff {s : List Char} : startsMark s = true ↔
    ∃ m d after, (m = '-' ∨ m = '.') ∧ s = m :: m :: m :: d :: after ∧
      (d = ' ' ∨ isRawBreak d = true) := by
  constructor
  · intro h
    unfold startsMark at h
    split at h
    · rename_i a b c d after
      simp only [Bool.and_eq_true, Bool.or_eq_true, beq_iff_eq] at h
      obtain ⟨⟨⟨hmark, rfl⟩, rfl⟩, hd⟩ := h
      exact ⟨_, d, after, hmark, rfl, hd⟩
    · cases h
  · rintro ⟨m, d, after, hm, rfl, hd⟩
    simp only [startsMark, Bool.and_eq_true, Bool.or_eq_true, beq_iff_eq]
    exact ⟨⟨⟨hm, trivial⟩, trivial⟩, hd⟩

/-! ## The written form of a text -/

/-- The written form of a `text` as the reader finds it from behind its opening quote on, with
`rest` behind the closing quote. -/
def written (text rest : List Char) : List Char :=
  (text.flatMap Json.writeChar).map unifyBreak ++ '"' :: rest

section Written

variable {c : Char} {s rest : List Char}

/-- A character `c` that is not escaped stands there with its break unified. -/
lemma written_cons_of_eq (hc : Json.writeChar c = [c]) :
    written (c :: s) rest = unifyBreak c :: written s rest := by
  simp [written, hc]

/-- The escape of `c` stands there as it is: it is made of marks, which keep their breaks. -/
private lemma written_cons_of_ne (hc : Json.writeChar c ≠ [c]) :
    written (c :: s) rest = Json.writeChar c ++ written s rest := by
  have hmarks : (Json.writeChar c).map unifyBreak = Json.writeChar c :=
    map_unifyBreak_of_isMark fun x hx => Json.isMark_of_mem_writeChar hc hx
  simp [written, hmarks]

/-- The escape of `c` starts with a backslash. -/
lemma exists_writeChar_eq_cons (hc : Json.writeChar c ≠ [c]) :
    ∃ escaped, Json.writeChar c = '\\' :: escaped := by
  unfold Json.writeChar at hc ⊢
  split_ifs at hc ⊢ <;> first | exact ⟨_, rfl⟩ | exact absurd rfl hc

/-- A mark `m` in front of the written form stands in front of the text: no escape starts with
it. -/
lemma exists_of_written_eq_cons {m : Char} (hm : m = '-' ∨ m = '.') {tail : List Char}
    (h : written s rest = m :: tail) : ∃ after, s = m :: after ∧ tail = written after rest := by
  cases s with
  | nil =>
    obtain ⟨rfl, -⟩ := List.cons.inj h
    exact absurd hm (by decide)
  | cons c s =>
    by_cases hc : Json.writeChar c = [c]
    · rw [written_cons_of_eq hc, unifyBreak] at h
      obtain ⟨hmark, rfl⟩ := List.cons.inj h
      split_ifs at hmark
      · rw [← hmark] at hm
        exact absurd hm (by decide)
      · exact ⟨s, by rw [hmark], rfl⟩
    · obtain ⟨escaped, hescaped⟩ := exists_writeChar_eq_cons hc
      rw [written_cons_of_ne hc, hescaped] at h
      obtain ⟨rfl, -⟩ := List.cons.inj h
      exact absurd hm (by decide)

/-- White space in front of the written form is a space or a break `d` that is not escaped.

**Proof sketch.** The first character of the text is written as it is or escaped. If it is written
as it is, `isBlank_unifyBreak` and `isBreak_unifyBreak` decide; if it is escaped, there is a
backslash, and the character itself is no white space (`not_blank_of_writeChar_ne`). -/
private lemma startsBlank_written : startsBlank (written s rest) = true ↔
    ∃ d after, s = d :: after ∧ (d = ' ' ∨ isRawBreak d = true) := by
  cases s with
  | nil =>
    have hquote : startsBlank (written [] rest) = false := rfl
    rw [hquote]
    constructor
    · intro h
      cases h
    · rintro ⟨d, after, h, -⟩
      cases h
  | cons c s =>
    have hfirst : (∃ d after, c :: s = d :: after ∧ (d = ' ' ∨ isRawBreak d = true)) ↔
        c = ' ' ∨ isRawBreak c = true := by
      constructor
      · rintro ⟨d, after, h, hd⟩
        obtain ⟨rfl, -⟩ := List.cons.inj h
        exact hd
      · intro h
        exact ⟨c, s, rfl, h⟩
    rw [hfirst]
    by_cases hc : Json.writeChar c = [c]
    · rw [written_cons_of_eq hc, startsBlank, isBlank_unifyBreak hc, isBreak_unifyBreak hc,
        Bool.or_eq_true, beq_iff_eq]
    · obtain ⟨escaped, hescaped⟩ := exists_writeChar_eq_cons hc
      obtain ⟨hspace, hbreak⟩ := not_blank_of_writeChar_ne hc
      have hsolid : (isBlank '\\' || isBreak '\\') = false := by decide
      rw [written_cons_of_ne hc, hescaped, List.cons_append, startsBlank, hsolid]
      simp [hspace, hbreak]

/-- The document mark of `m` is seen in the written form where the text starts with it.

**Proof sketch.** The three marks that are seen are the first characters of the text
(`exists_of_written_eq_cons`), and so is the white space behind them (`startsBlank_written`).
Conversely marks are written as they are. -/
private lemma startsDocumentMark_written {m : Char} (hm : m = '-' ∨ m = '.') :
    startsDocumentMark m (written s rest) = true ↔
      ∃ d after, s = m :: m :: m :: d :: after ∧ (d = ' ' ∨ isRawBreak d = true) := by
  constructor
  · intro h
    unfold startsDocumentMark at h
    split at h
    · rename_i a b c tail heq
      simp only [Bool.and_eq_true, beq_iff_eq] at h
      obtain ⟨⟨⟨rfl, rfl⟩, rfl⟩, hblank⟩ := h
      obtain ⟨s₁, rfl, h₁⟩ := exists_of_written_eq_cons hm heq
      obtain ⟨s₂, rfl, h₂⟩ := exists_of_written_eq_cons hm h₁.symm
      obtain ⟨s₃, rfl, h₃⟩ := exists_of_written_eq_cons hm h₂.symm
      rw [h₃, startsBlank_written] at hblank
      obtain ⟨d, after, rfl, hd⟩ := hblank
      exact ⟨d, after, rfl, hd⟩
    · cases h
  · rintro ⟨d, after, rfl, hd⟩
    have hwrite : Json.writeChar m = [m] ∧ unifyBreak m = m := by
      rcases hm with rfl | rfl <;> decide
    have hblank : startsBlank (written (d :: after) rest) = true :=
      startsBlank_written.2 ⟨d, after, rfl, hd⟩
    simp [written_cons_of_eq hwrite.1, hwrite.2, startsDocumentMark, hblank]

variable (s rest) in
/-- Either document mark is seen in the written form where the text starts with it. -/
private lemma atDocumentMark_written : atDocumentMark (written s rest) = startsMark s := by
  rw [Bool.eq_iff_iff, atDocumentMark, Bool.or_eq_true, startsDocumentMark_written (.inl rfl),
    startsDocumentMark_written (.inr rfl), startsMark_iff]
  constructor
  · rintro (⟨d, after, rfl, hd⟩ | ⟨d, after, rfl, hd⟩)
    · exact ⟨'-', d, after, .inl rfl, rfl, hd⟩
    · exact ⟨'.', d, after, .inr rfl, rfl, hd⟩
  · rintro ⟨m, d, after, rfl | rfl, rfl, hd⟩
    · exact .inl ⟨d, after, rfl, hd⟩
    · exact .inr ⟨d, after, rfl, hd⟩

end Written

/-! ## Reading the written form -/

/-- The written form of the text `s` is read, up to its closing quote, as `s` is folded from the
same `gap` on.

**Proof sketch.** Induction on `s`, one character a step. An escape ends the gap before it; of the
characters that are written as they are a space or a break widens the gap, unless a document mark is
seen there (`atDocumentMark_written`), and any other ends it. -/
private lemma quotedFrom_written (s rest : List Char) (p : Position) (gap : Gap) (acc : List Char) :
    (quotedFrom false (written s rest) p 0 gap acc).map (fun r => (r.value, r.rest)) =
      (foldFrom (p.column == 0) gap s).map fun text => (acc.reverse ++ text, rest) := by
  have hadvance : ∀ (q : Position) n, 0 < n → ((q.advance n).column == 0) = false := by
    intro q n hn
    have hcolumn : (q.advance n).column = q.column + n := rfl
    rw [beq_eq_false_iff_ne, hcolumn]
    omega
  induction s generalizing p gap acc with
  | nil =>
    have hmark : atDocumentMark ('"' :: rest) = false := atDocumentMark_written [] rest
    rw [written, List.flatMap_nil, List.map_nil, List.nil_append, quotedFrom,
      if_neg (by simp [hmark]), if_neg (by decide), if_neg (by decide)]
    simp [foldFrom]
  | cons c s ih =>
    have hmark := atDocumentMark_written (c :: s) rest
    have hstart : (p.column = 0 ∧ startsMark (c :: s) = true) ↔
        (p.column == 0 && startsMark (c :: s)) = true := by simp
    by_cases hc : Json.writeChar c = [c]
    · obtain ⟨-, hquote, hbackslash⟩ := writeChar_eq_singleton_iff.1 hc
      rw [written_cons_of_eq hc] at hmark ⊢
      rw [quotedFrom, foldFrom, hmark, isBlank_unifyBreak hc, isBreak_unifyBreak hc]
      by_cases hrefused : (p.column == 0 && startsMark (c :: s)) = true
      · rw [if_pos (hstart.2 hrefused), if_pos hrefused]
        rfl
      rw [if_neg fun h => hrefused (hstart.1 h), if_neg hrefused]
      by_cases hblank : (c == ' ') = true
      · have hspace : unifyBreak c = ' ' := by rw [beq_iff_eq.1 hblank]; decide
        rw [if_pos hblank, if_pos hblank, ih, hadvance p 1 Nat.one_pos, hspace]
      rw [if_neg hblank, if_neg hblank]
      by_cases hbreak : isRawBreak c = true
      · rw [if_pos hbreak, if_pos hbreak, ih]
        rfl
      rw [if_neg hbreak, if_neg hbreak]
      have hkept : unifyBreak c = c := by
        rw [unifyBreak, if_neg]
        rintro rfl
        exact hbreak (by decide)
      simp only [Bool.false_eq_true, if_false, hkept, hquote, hbackslash, and_false, ih,
        hadvance p 1 Nat.one_pos, Option.map_map]
      congr 1
      funext text
      simp
    · obtain ⟨escaped, hescaped⟩ := exists_writeChar_eq_cons hc
      obtain ⟨hblank, hbreak⟩ := not_blank_of_writeChar_ne hc
      have hnone : startsMark (c :: s) = false := by
        rw [← hmark, written_cons_of_ne hc, hescaped, List.cons_append, atDocumentMark,
          startsDocumentMark_cons_of_ne (by decide), startsDocumentMark_cons_of_ne (by decide),
          Bool.or_self]
      have hpos : 0 < (Json.writeChar c).length := by
        rw [hescaped]
        exact Nat.succ_pos _
      rw [written_cons_of_ne hc, quotedFrom_writeChar_of_ne hc, ih, hadvance p _ hpos, foldFrom,
        hnone, Bool.and_false, if_neg Bool.false_ne_true, if_neg (by simpa using hblank), hbreak,
        if_neg Bool.false_ne_true, Option.map_map]
      congr 1
      funext text
      simp

/-- **Text between quotes is folded.** From behind the opening quote of the written text `s` the
reader finds what `fold? s` is, and stops behind the closing quote. This is `quotedFrom_written`
without a gap and with nothing read before. -/
theorem readQuoted_written (s rest : List Char) (p : Position) :
    (readQuoted false (written s rest) (p.advance 1)).map (fun r => (r.value, r.rest)) =
      (fold? s).map (·, rest) := by
  have hcolumn : ((p.advance 1).column == 0) = false := rfl
  rw [readQuoted, quotedFrom_written, hcolumn]
  rfl

/-- What is read of the text `s` that was written between quotes, as a text. -/
def foldText? (s : String) : Option String :=
  (fold? s.toList).map String.ofList

end FirmwareBundle.Yaml

/-! ## Folded values -/

namespace FirmwareBundle.Json

open Yaml

mutual

/-- What is read of a value: the same with its texts folded. Keys are left as they are. -/
def fold? : Json → Option Json
  | .boolean value => some (.boolean value)
  | .number n => some (.number n)
  | .string text => (foldText? text).map .string
  | .array items => (foldItems? items).map .array
  | .object fields => (foldFields? fields).map .object

/-- What is read of items. -/
def foldItems? : List Json → Option (List Json)
  | [] => some []
  | item :: items =>
    (fold? item).bind fun item => (foldItems? items).map fun items => item :: items

/-- What is read of keys and values. -/
def foldFields? : List (String × Json) → Option (List (String × Json))
  | [] => some []
  | (key, value) :: fields =>
    (fold? value).bind fun value => (foldFields? fields).map fun fields => (key, value) :: fields

end

/-- Each item `item'` that is read is one of `items` that was written. -/
private lemma exists_of_mem_foldItems? {items items' : List Json}
    (h : foldItems? items = some items') {item' : Json} (hmem : item' ∈ items') :
    ∃ item ∈ items, fold? item = some item' := by
  induction items generalizing items' with
  | nil =>
    obtain rfl := Option.some.inj h
    cases hmem
  | cons item items ih =>
    rw [foldItems?] at h
    obtain ⟨first, hfirst, h⟩ := Option.bind_eq_some_iff.1 h
    obtain ⟨others, hothers, rfl⟩ := Option.map_eq_some_iff.1 h
    rcases List.mem_cons.1 hmem with rfl | hmem
    · exact ⟨item, List.mem_cons_self, hfirst⟩
    · obtain ⟨other, hother, hfold⟩ := ih hothers hmem
      exact ⟨other, List.mem_cons_of_mem item hother, hfold⟩

/-- Each key that is read, with `field'`, is one that was written, with what is read of its
value. -/
private lemma exists_of_mem_foldFields? {fields fields' : List (String × Json)}
    (h : foldFields? fields = some fields') {field' : String × Json} (hmem : field' ∈ fields') :
    ∃ field ∈ fields, field'.1 = field.1 ∧ fold? field.2 = some field'.2 := by
  induction fields generalizing fields' with
  | nil =>
    obtain rfl := Option.some.inj h
    cases hmem
  | cons field fields ih =>
    rw [foldFields?] at h
    obtain ⟨value, hvalue, h⟩ := Option.bind_eq_some_iff.1 h
    obtain ⟨others, hothers, rfl⟩ := Option.map_eq_some_iff.1 h
    rcases List.mem_cons.1 hmem with rfl | hmem
    · exact ⟨field, List.mem_cons_self, rfl, hvalue⟩
    · obtain ⟨other, hother, hkey, hfold⟩ := ih hothers hmem
      exact ⟨other, List.mem_cons_of_mem field hother, hkey, hfold⟩

/-- The keys of `fields` are read as they were written. -/
private lemma map_fst_foldFields? {fields fields' : List (String × Json)}
    (h : foldFields? fields = some fields') : fields'.map (·.1) = fields.map (·.1) := by
  induction fields generalizing fields' with
  | nil =>
    obtain rfl := Option.some.inj h
    rfl
  | cons field fields ih =>
    rw [foldFields?] at h
    obtain ⟨value, hvalue, h⟩ := Option.bind_eq_some_iff.1 h
    obtain ⟨others, hothers, rfl⟩ := Option.map_eq_some_iff.1 h
    rw [List.map_cons, List.map_cons, ih hothers]

/-- What is read, `value'`, has the shape of the `value` that was written.

**Proof sketch.** Induction on the evidence for the shape. Each part that is read is one that was
written (`exists_of_mem_foldItems?`, `exists_of_mem_foldFields?`), and the keys are the same
(`map_fst_foldFields?`), so they are still safe, short and distinct. -/
lemma Shaped.fold? {depth : Nat} {value value' : Json} (h : Shaped depth value)
    (hfold : value.fold? = some value') : Shaped depth value' := by
  induction h generalizing value' with
  | boolean value =>
    obtain rfl := Option.some.inj hfold
    exact .boolean value
  | number fits =>
    obtain rfl := Option.some.inj hfold
    exact .number fits
  | string text =>
    obtain ⟨text', -, rfl⟩ := Option.map_eq_some_iff.1 hfold
    exact .string text'
  | array shaped ih =>
    obtain ⟨items', hitems, rfl⟩ := Option.map_eq_some_iff.1 hfold
    refine .array fun item' hitem' => ?_
    obtain ⟨item, hitem, hfold⟩ := exists_of_mem_foldItems? hitems hitem'
    exact ih item hitem hfold
  | object keys distinct shaped ih =>
    obtain ⟨fields', hfields, rfl⟩ := Option.map_eq_some_iff.1 hfold
    refine .object ?_ (map_fst_foldFields? hfields ▸ distinct) ?_ <;> intro field' hfield' <;>
      obtain ⟨field, hfield, hkey, hfold⟩ := exists_of_mem_foldFields? hfields hfield'
    · rw [hkey]
      exact keys field hfield
    · exact ih field hfield hfold

mutual

/-- A value is left as it is if its texts are. -/
lemma fold?_of_texts : (value : Json) → (∀ text ∈ value.texts, foldText? text = some text) →
    fold? value = some value
  | .boolean _, _ => rfl
  | .number _, _ => rfl
  | .string text, h => by rw [fold?, h text (List.mem_singleton_self text), Option.map_some]
  | .array items, h => by rw [fold?, foldItems?_of_texts items h, Option.map_some]
  | .object fields, h => by rw [fold?, foldFields?_of_texts fields h, Option.map_some]

/-- Items are left as they are if their texts are. -/
private lemma foldItems?_of_texts : (items : List Json) →
    (∀ text ∈ textsOfItems items, foldText? text = some text) → foldItems? items = some items
  | [], _ => rfl
  | item :: items, h => by
    rw [textsOfItems, List.forall_mem_append] at h
    rw [foldItems?, fold?_of_texts item h.1, foldItems?_of_texts items h.2]
    rfl

/-- Keys and values are left as they are if their texts are. -/
private lemma foldFields?_of_texts : (fields : List (String × Json)) →
    (∀ text ∈ textsOfFields fields, foldText? text = some text) →
    foldFields? fields = some fields
  | [], _ => rfl
  | (key, value) :: fields, h => by
    rw [textsOfFields, List.forall_mem_cons, List.forall_mem_append] at h
    rw [foldFields?, fold?_of_texts value h.2.1, foldFields?_of_texts fields h.2.2]
    rfl

end

end FirmwareBundle.Json
