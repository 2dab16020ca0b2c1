import FirmwareBundle.Proofs.FlowLexer
import FirmwareBundle.Proofs.FoldedText
/-!
# Tokens of the text of a value

The reader passes over the text of each part of a value and adds the tokens of that part with its
texts folded, whatever follows; or a text of the part cannot be folded, and then the reader fails.

## Main definitions

* `FirmwareBundle.Yaml.Lexer.Fails` — the reader fails.
* `FirmwareBundle.Yaml.Lexer.Takes` — some text is passed over, or makes the reader fail.
* `FirmwareBundle.Json.foldTokens?` — the tokens of a value with its texts folded.

## Main results

* `FirmwareBundle.Yaml.Lexer.takesValue` — the text of a value gives its tokens.
* `FirmwareBundle.Yaml.tokens?_write_append` — the text of an object is read to its end.
-/

namespace FirmwareBundle

/-! ## Tokens of folded values -/

namespace Json

open Yaml

/-- The tokens `first` followed by the tokens `second`, if there are both. -/
def joinTokens? (first second : Option (List Token)) : Option (List Token) :=
  first.bind fun tokens => second.map (tokens ++ ·)

/-- The tokens of `value` with its texts folded. -/
def foldTokens? (value : Json) : Option (List Token) :=
  (fold? value).map tokens

/-- The tokens of `items`, which stand after the first, with their texts folded. -/
def foldTokensOfItems? (items : List Json) : Option (List Token) :=
  (foldItems? items).map tokensOfItems

/-- The tokens of `fields`, which stand after the first, with their texts folded. -/
def foldTokensOfFields? (fields : List (String × Json)) : Option (List Token) :=
  (foldFields? fields).map tokensOfFields

/-- No tokens add nothing behind `first`. -/
lemma joinTokens?_nil (first : Option (List Token)) : joinTokens? first (some []) = first := by
  cases first <;> simp [joinTokens?]

/-- No tokens add nothing in front of `second`. -/
private lemma nil_joinTokens? (second : Option (List Token)) :
    joinTokens? (some []) second = second := by
  cases second <;> simp [joinTokens?]

/-- The tokens of `item` and of `items` come one after the other, with the mark of an entry before
them. -/
lemma foldTokensOfItems?_cons (item : Json) (items : List Json) :
    foldTokensOfItems? (item :: items) =
      joinTokens? (some [.flowEntry])
        (joinTokens? (foldTokens? item) (foldTokensOfItems? items)) := by
  rw [foldTokensOfItems?, foldItems?, foldTokens?, foldTokensOfItems?]
  cases fold? item <;> cases foldItems? items <;> simp [joinTokens?, tokensOfItems]

/-- The tokens of an array are those of its items between its marks. -/
lemma foldTokens?_array_cons (item : Json) (items : List Json) :
    foldTokens? (.array (item :: items)) =
      joinTokens? (some [.flowSequenceStart])
        (joinTokens? (joinTokens? (foldTokens? item) (foldTokensOfItems? items))
          (some [.flowSequenceEnd])) := by
  rw [foldTokens?, fold?, foldItems?, foldTokens?, foldTokensOfItems?]
  cases fold? item <;> cases foldItems? items <;> simp [joinTokens?, tokens]

/-- The tokens of a field and of `fields` come one after the other, with the mark of an entry before
them. -/
lemma foldTokensOfFields?_cons (key : String) (value : Json) (fields : List (String × Json)) :
    foldTokensOfFields? ((key, value) :: fields) =
      joinTokens? (some [.flowEntry]) (joinTokens? (some [.key, .scalar key false, .value])
        (joinTokens? (foldTokens? value) (foldTokensOfFields? fields))) := by
  rw [foldTokensOfFields?, foldFields?, foldTokens?, foldTokensOfFields?]
  cases fold? value <;> cases foldFields? fields <;> simp [joinTokens?, tokensOfFields]

/-- The tokens of an object are those of its fields between its marks. -/
lemma foldTokens?_object_cons (key : String) (value : Json) (fields : List (String × Json)) :
    foldTokens? (.object ((key, value) :: fields)) =
      joinTokens? (some [.flowMappingStart])
        (joinTokens? (joinTokens? (some [.key, .scalar key false, .value])
          (joinTokens? (foldTokens? value) (foldTokensOfFields? fields)))
          (some [.flowMappingEnd])) := by
  rw [foldTokens?, fold?, foldFields?, foldTokens?, foldTokensOfFields?]
  cases fold? value <;> cases foldFields? fields <;> simp [joinTokens?, tokens]

/-! ## Texts with unified breaks -/

/-- The text of `value` with its breaks unified. -/
def unified (layout : Layout) (level : Nat) (value : Json) : List Char :=
  (write layout level value).map unifyBreak

/-- The text of `items`, which stand after the first, with its breaks unified. -/
def unifiedItems (layout : Layout) (level : Nat) (items : List Json) : List Char :=
  (writeItems layout level items).map unifyBreak

/-- The text of `fields`, which stand after the first, with its breaks unified. -/
def unifiedFields (layout : Layout) (level : Nat) (fields : List (String × Json)) : List Char :=
  (writeFields layout level fields).map unifyBreak

section Unified

variable {layout : Layout} {level : Nat}

/-- A `text` between quotes keeps its quotes. -/
private lemma unified_string (text : String) (rest : List Char) :
    unified layout level (.string text) ++ rest = '"' :: written text.toList rest := by
  simp [unified, write, writeString, written, unifyBreak, nextLine]

/-- The breaks of a `key` are unified already: it is made of marks and of safe characters. -/
private lemma map_unifyBreak_key {key : String} (hkey : IsKey key) :
    (writeString key).map unifyBreak = writeString key := by
  have hkept : ∀ x ∈ writeString key, unifyBreak x = x := by
    intro x hx
    rcases isMark_or_mem_of_mem_writeString hx with hmark | ⟨hmem, -⟩
    · exact unifyBreak_of_isMark hmark
    · rw [unifyBreak, if_neg]
      rintro rfl
      exact absurd (hkey.1 _ hmem) (by decide)
  rw [List.map_congr_left hkept, List.map_id']

/-- The breaks before an item are unified already. -/
private lemma map_unifyBreak_lineBreak :
    (layout.lineBreak level).map unifyBreak = layout.lineBreak level :=
  map_unifyBreak_of_isMark fun _ => isMark_of_mem_lineBreak

/-- What stands behind a key has no breaks. -/
private lemma map_unifyBreak_colon : layout.colon.map unifyBreak = layout.colon :=
  map_unifyBreak_of_isMark fun _ => isMark_of_mem_colon

variable (rest : List Char)

/-- The text of an array has its items between its marks, on lines that are one `level` deeper. -/
lemma unified_array_cons (item : Json) (items : List Json) :
    unified layout level (.array (item :: items)) ++ rest =
      '[' :: (layout.lineBreak (level + 1) ++ (unified layout (level + 1) item ++
        (unifiedItems layout (level + 1) items ++ (layout.lineBreak level ++ ']' :: rest)))) := by
  simp [unified, unifiedItems, write, map_unifyBreak_lineBreak, unifyBreak, nextLine]

/-- The items after the first stand behind commas. -/
lemma unifiedItems_cons (item : Json) (items : List Json) :
    unifiedItems layout level (item :: items) ++ rest =
      ',' :: (layout.lineBreak level ++ (unified layout level item ++
        (unifiedItems layout level items ++ rest))) := by
  simp [unified, unifiedItems, writeItems, map_unifyBreak_lineBreak, unifyBreak, nextLine]

/-- The text of an object has its fields between its marks, on lines that are one `level` deeper. -/
lemma unified_object_cons {key : String} (hkey : IsKey key) (value : Json)
    (fields : List (String × Json)) :
    unified layout level (.object ((key, value) :: fields)) ++ rest =
      '{' :: (layout.lineBreak (level + 1) ++ (writeString key ++ (layout.colon ++
        (unified layout (level + 1) value ++ (unifiedFields layout (level + 1) fields ++
          (layout.lineBreak level ++ '}' :: rest)))))) := by
  simp [unified, unifiedFields, write, map_unifyBreak_lineBreak, map_unifyBreak_colon,
    map_unifyBreak_key hkey, unifyBreak, nextLine]

/-- The fields after the first stand behind commas. -/
lemma unifiedFields_cons {key : String} (hkey : IsKey key) (value : Json)
    (fields : List (String × Json)) :
    unifiedFields layout level ((key, value) :: fields) ++ rest =
      ',' :: (layout.lineBreak level ++ (writeString key ++ (layout.colon ++
        (unified layout level value ++ (unifiedFields layout level fields ++ rest))))) := by
  simp [unified, unifiedFields, writeFields, map_unifyBreak_lineBreak, map_unifyBreak_colon,
    map_unifyBreak_key hkey, unifyBreak, nextLine]

end Unified

end Json

namespace Yaml.Lexer

open Json

variable {s t : Lexer}

/-! ## Runs that fail -/

/-- In the state `s` the reader fails, however much fuel it has. -/
def Fails (s : Lexer) : Prop :=
  ∀ fuel, s.rest.length < fuel → s.run fuel = none

/-- The state `s` fails if it leads to one that fails. -/
private lemma Leads.fails (hst : s.Leads t) (ht : t.Fails) : s.Fails := by
  intro fuel hfuel
  obtain ⟨fuel', hfuel', hrun⟩ := hst fuel hfuel
  rw [hrun, ht fuel' hfuel']

/-- The state `s` fails if its next token, which starts with `c`, cannot be read. -/
private lemma fails_of_fetch (hs : s.indents = []) {c : Char} {rest : List Char} (hc : IsSolid c)
    (hrest : s.rest = c :: rest) (hfetch : s.fetch c rest = none) : s.Fails := by
  intro fuel hfuel
  obtain ⟨fuel, rfl⟩ : ∃ k, fuel = k + 1 := ⟨fuel - 1, by omega⟩
  rw [run, skipIgnored_of_isSolid hc hrest, closeBlocks_of_indents hs]
  simp [hrest, hfetch]

/-! ## Text that is passed over or refused -/

/-- The text in front of the second argument is passed over from `s` on, gives the tokens, and
leaves the same collections open; or there are no tokens, and the reader fails. -/
def Takes (s : Lexer) : Option (List Token) → List Char → Prop
  | some tokens, rest => ∃ t, s.Passes tokens rest t ∧ t.enclosing = s.enclosing
  | none, _ => s.Fails

/-- Two parts of a text are taken one after the other: the second from any state that the first may
leave. If one of them makes the reader fail, both do. -/
lemma Takes.join {first second : Option (List Token)} {rest rest' : List Char}
    (hfirst : s.Takes first rest) (hsecond : ∀ t : Lexer, t.Flat → t.enclosing = s.enclosing →
      t.rest = rest → t.Takes second rest') : s.Takes (joinTokens? first second) rest' := by
  cases first with
  | none => exact hfirst
  | some tokens =>
    obtain ⟨t, ht, hteq⟩ := hfirst
    have hafter := hsecond t ht.flat hteq ht.rest_eq
    cases second with
    | none => exact ht.leads.fails hafter
    | some others =>
      obtain ⟨u, hu, hueq⟩ := hafter
      exact ⟨u, ht.trans hu, hueq.trans hteq⟩

/-- What is passed over is taken with what follows it. -/
lemma Passes.takes {tokens : List Token} {second : Option (List Token)} {rest rest' : List Char}
    (hst : s.Passes tokens rest t) (hteq : t.enclosing = s.enclosing)
    (ht : t.Takes second rest') : s.Takes (joinTokens? (some tokens) second) rest' := by
  cases second with
  | none => exact hst.leads.fails ht
  | some others =>
    obtain ⟨u, hu, hueq⟩ := ht
    exact ⟨u, hst.trans hu, hueq.trans hteq⟩

/-- The quoted `text` gives a scalar of the folded text.

**Proof sketch.** It is read as `readQuoted_written` says. If the text can be folded, this is one
token (`Lexer.Flat.passes_of_fetch`); if not, the token cannot be read (`Lexer.fails_of_fetch`). -/
private lemma Flat.takes_string (hs : s.Flat) (layout : Layout) (level : Nat) {text : String}
    {rest : List Char} (hrest : s.rest = unified layout level (.string text) ++ rest) :
    s.Takes (foldTokens? (.string text)) rest := by
  rw [unified_string] at hrest
  obtain ⟨o, ho, -, hfetch⟩ := hs.exists_fetch_quoted hrest
  have hread := readQuoted_written text.toList rest s.position
  rw [foldTokens?, Json.fold?, foldText?]
  cases hfold : Yaml.fold? text.toList with
  | none =>
    rw [hfold, Option.map_none, Option.map_eq_none_iff] at hread
    rw [hread] at hfetch
    exact fails_of_fetch hs.indents (by decide) hrest hfetch
  | some folded =>
    rw [hfold, Option.map_some] at hread
    obtain ⟨r, hfound, hr⟩ := Option.map_eq_some_iff.1 hread
    obtain ⟨rfl, rfl⟩ := Prod.mk.inj hr
    rw [hfound, Option.map_some] at hfetch
    exact ⟨_, hs.passes_of_fetch (by decide) hrest hfetch ⟨hs.indents, ho, hs.enclosing⟩ rfl
      ⟨(text.toList.flatMap writeChar).map unifyBreak ++ ['"'], by simp [written]⟩, rfl⟩

/-! ## Values -/

/-- A state `t` with the collections of `s`, which is in a flow collection, is in it too. -/
lemma inFlow_of_enclosing_eq (h : t.enclosing = s.enclosing) (hs : s.inFlow) : t.inFlow := by
  rwa [inFlow, h]

/-- In a flow collection the text of `value` is taken up to the mark `c` behind it, with the white
space `v` and `w` on both sides. -/
def TakesValue (layout : Layout) (value : Json) : Prop :=
  ∀ (s : Lexer) (level : Nat) {v w : List Char} {c : Char} (rest : List Char), s.Flat → s.inFlow →
    Spacing v → Spacing w → isFlowMark c →
    s.rest = v ++ (unified layout level value ++ (w ++ c :: rest)) →
    s.Takes (foldTokens? value) (c :: rest)

section Collections

variable {layout : Layout} {v w : List Char}

/-- The items of an array are taken up to its end.

**Proof sketch.** Induction on `items`, those after the first. White space, if any, stands only in
front of the end; a comma in front of an item stands right behind the item before. -/
private lemma takes_items {item : Json} {items : List Json} (hitem : TakesValue layout item)
    (hitems : ∀ other ∈ items, TakesValue layout other) (hs : s.Flat) (hflow : s.inFlow)
    (hv : Spacing v) (hw : Spacing w) (level : Nat) (rest : List Char)
    (hrest : s.rest = v ++ (unified layout level item ++
      (unifiedItems layout level items ++ (w ++ ']' :: rest)))) :
    s.Takes (joinTokens? (foldTokens? item) (foldTokensOfItems? items)) (']' :: rest) := by
  induction items generalizing item v s with
  | nil =>
    have hnone : foldTokensOfItems? [] = some [] := rfl
    rw [hnone, joinTokens?_nil]
    exact hitem s level rest hs hflow hv hw rfl hrest
  | cons next items ih =>
    rw [List.forall_mem_cons] at hitems
    rw [unifiedItems_cons] at hrest
    refine (hitem s level (w := []) (c := ',') _ hs hflow hv ⟨0, .inl rfl⟩ rfl hrest).join ?_
    intro t ht hteq htrest
    obtain ⟨u, hu, -, hueq⟩ := ht.exists_passes_comma htrest
    rw [foldTokensOfItems?_cons]
    refine hu.takes hueq ?_
    exact ih hitems.1 hitems.2 hu.flat (inFlow_of_enclosing_eq (hueq.trans hteq) hflow)
      (spacing_lineBreak layout level) hu.rest_eq

/-- The `key` is passed over with the white space `v` before it and the colon behind it. -/
private lemma Flat.exists_passes_colon (hs : s.Flat) (hflow : s.inFlow) (hallowed : s.keyAllowed)
    {key : String} (hkey : IsKey key) (hv : Spacing v) {rest : List Char}
    (hrest : s.rest = v ++ (writeString key ++ ':' :: rest)) :
    ∃ t, s.Passes [.key, .scalar key false, .value] rest t ∧ t.enclosing = s.enclosing := by
  obtain ⟨p, hp⟩ := hs.exists_passes_spacing hflow hv (c := '"') (by decide) hrest
  obtain ⟨t, ht, hteq⟩ := hp.flat.exists_passes_key hflow hallowed hkey rfl
  exact ⟨t, hp.trans ht, hteq⟩

/-- The fields of an object are taken up to its end.

**Proof sketch.** Induction on `fields`, those after the first, as for items (`Lexer.takes_items`).
A key may begin behind the opening mark and behind each comma. -/
private lemma takes_fields {key : String} {value : Json} {fields : List (String × Json)}
    (hkey : IsKey key) (hvalue : TakesValue layout value)
    (hfields : ∀ field ∈ fields, IsKey field.1 ∧ TakesValue layout field.2) (hs : s.Flat)
    (hflow : s.inFlow) (hallowed : s.keyAllowed) (hv : Spacing v) (hw : Spacing w) (level : Nat)
    (rest : List Char)
    (hrest : s.rest = v ++ (writeString key ++ (layout.colon ++ (unified layout level value ++
      (unifiedFields layout level fields ++ (w ++ '}' :: rest)))))) :
    s.Takes (joinTokens? (some [.key, .scalar key false, .value])
      (joinTokens? (foldTokens? value) (foldTokensOfFields? fields))) ('}' :: rest) := by
  obtain ⟨blank, hcolon, hblank⟩ := exists_colon_eq layout
  induction fields generalizing key value v s with
  | nil =>
    rw [hcolon, List.cons_append] at hrest
    obtain ⟨k, hk, hkeq⟩ := hs.exists_passes_colon hflow hallowed hkey hv hrest
    have hnone : foldTokensOfFields? [] = some [] := rfl
    rw [hnone, joinTokens?_nil]
    exact hk.takes hkeq (hvalue k level rest hk.flat (inFlow_of_enclosing_eq hkeq hflow) hblank hw
      rfl hk.rest_eq)
  | cons next fields ih =>
    obtain ⟨other, next⟩ := next
    rw [List.forall_mem_cons] at hfields
    rw [unifiedFields_cons _ hfields.1.1, hcolon, List.cons_append] at hrest
    obtain ⟨k, hk, hkeq⟩ := hs.exists_passes_colon hflow hallowed hkey hv hrest
    have hkflow := inFlow_of_enclosing_eq hkeq hflow
    refine hk.takes hkeq ?_
    refine (hvalue k level (w := []) (c := ',') _ hk.flat hkflow hblank ⟨0, .inl rfl⟩ rfl
      hk.rest_eq).join ?_
    intro t ht hteq htrest
    obtain ⟨u, hu, huallowed, hueq⟩ := ht.exists_passes_comma htrest
    rw [foldTokensOfFields?_cons]
    refine hu.takes hueq ?_
    exact ih hfields.1.1 hfields.1.2 hfields.2 hu.flat
      (inFlow_of_enclosing_eq (hueq.trans hteq) hkflow) huallowed (spacing_lineBreak layout level)
      (by rw [hu.rest_eq, hcolon, List.cons_append])

/-- What is taken between the marks `opening` and `closing` of a collection is taken with them. -/
private lemma Passes.takes_closed {opening closing : Token} {c : Char} {inner : Option (List Token)}
    {rest rest' : List Char} {o : Option PendingKey} (hst : s.Passes [opening] rest t)
    (hteq : t.enclosing = o :: s.enclosing)
    (hc : c = ']' ∧ closing = .flowSequenceEnd ∨ c = '}' ∧ closing = .flowMappingEnd)
    (ht : t.Takes inner (c :: rest')) :
    s.Takes (joinTokens? (some [opening]) (joinTokens? inner (some [closing]))) rest' := by
  cases inner with
  | none => exact hst.leads.fails ht
  | some tokens =>
    obtain ⟨u, hu, hueq⟩ := ht
    obtain ⟨x, hx, hxeq⟩ := hu.flat.exists_passes_close hc hu.rest_eq (hueq.trans hteq)
    exact ⟨x, hst.trans (hu.trans hx), hxeq⟩

/-- The text of an array of `items` is taken.

**Proof sketch.** Without items its two marks are passed over. Otherwise the items are taken between
the marks (`Lexer.takes_items`, `Lexer.Passes.takes_closed`). -/
private lemma Flat.takes_array (hs : s.Flat) {items : List Json}
    (hitems : ∀ item ∈ items, TakesValue layout item) (level : Nat) (rest : List Char)
    (hrest : s.rest = unified layout level (.array items) ++ rest) :
    s.Takes (foldTokens? (.array items)) rest := by
  cases items with
  | nil =>
    obtain ⟨t, o, ht, -, hteq⟩ := hs.exists_passes_open (.inl ⟨rfl, rfl⟩) hrest
    obtain ⟨u, hu, hueq⟩ := ht.flat.exists_passes_close (.inl ⟨rfl, rfl⟩) ht.rest_eq hteq
    exact ⟨u, ht.trans hu, hueq⟩
  | cons item items =>
    rw [List.forall_mem_cons] at hitems
    rw [unified_array_cons] at hrest
    obtain ⟨t, o, ht, -, hteq⟩ := hs.exists_passes_open (.inl ⟨rfl, rfl⟩) hrest
    have hinner := takes_items hitems.1 hitems.2 ht.flat (by simp [inFlow, hteq])
      (spacing_lineBreak layout (level + 1)) (spacing_lineBreak layout level) (level + 1) rest
      ht.rest_eq
    rw [foldTokens?_array_cons]
    exact ht.takes_closed hteq (.inl ⟨rfl, rfl⟩) hinner

/-- The text of an object of `fields` is taken, as that of an array is, with `Lexer.takes_fields`
for what stands between the marks. -/
private lemma Flat.takes_object (hs : s.Flat) {fields : List (String × Json)}
    (hfields : ∀ field ∈ fields, IsKey field.1 ∧ TakesValue layout field.2) (level : Nat)
    (rest : List Char) (hrest : s.rest = unified layout level (.object fields) ++ rest) :
    s.Takes (foldTokens? (.object fields)) rest := by
  cases fields with
  | nil =>
    obtain ⟨t, o, ht, -, hteq⟩ := hs.exists_passes_open (.inr ⟨rfl, rfl⟩) hrest
    obtain ⟨u, hu, hueq⟩ := ht.flat.exists_passes_close (.inr ⟨rfl, rfl⟩) ht.rest_eq hteq
    exact ⟨u, ht.trans hu, hueq⟩
  | cons field fields =>
    obtain ⟨key, value⟩ := field
    rw [List.forall_mem_cons] at hfields
    rw [unified_object_cons _ hfields.1.1] at hrest
    obtain ⟨t, o, ht, hallowed, hteq⟩ := hs.exists_passes_open (.inr ⟨rfl, rfl⟩) hrest
    have hinner := takes_fields hfields.1.1 hfields.1.2 hfields.2 ht.flat
      (by simp [inFlow, hteq]) hallowed (spacing_lineBreak layout (level + 1))
      (spacing_lineBreak layout level) (level + 1) rest ht.rest_eq
    rw [foldTokens?_object_cons]
    exact ht.takes_closed hteq (.inr ⟨rfl, rfl⟩) hinner

variable (layout) in
/-- A `value` whose text is taken alone is taken between white space too. -/
private lemma takesValue_of_takes (value : Json) {a : Char} (ha : IsSolid a)
    (hwrite : ∀ level, ∃ text, unified layout level value = a :: text)
    (htakes : ∀ {s : Lexer} (level : Nat) (rest : List Char), s.Flat →
      s.rest = unified layout level value ++ rest → s.Takes (foldTokens? value) rest) :
    TakesValue layout value := by
  intro s level v w c rest hs hflow hv hw hc hrest
  obtain ⟨text, htext⟩ := hwrite level
  rw [htext] at hrest
  obtain ⟨p, hp⟩ := hs.exists_passes_spacing hflow hv ha hrest
  have htaken := htakes level (w ++ c :: rest) hp.flat (by rw [htext]; rfl)
  have hspaced : s.Takes (joinTokens? (some []) (joinTokens? (foldTokens? value) (some [])))
      (c :: rest) := by
    refine hp.takes rfl (htaken.join ?_)
    intro t ht hteq htrest
    obtain ⟨q, hq⟩ := ht.exists_passes_spacing (inFlow_of_enclosing_eq hteq hflow) hw
      (isSolid_of_isFlowMark hc) htrest
    exact ⟨_, hq, rfl⟩
  rwa [nil_joinTokens?, joinTokens?_nil] at hspaced

variable (layout) in
/-- A `value` that is written as a plain word, `a :: word`, is taken between white space. -/
private lemma takesValue_of_word (value : Json) {a : Char} {word : List Char}
    (hwrite : ∀ level, write layout level value = a :: word)
    (htokens : foldTokens? value = some [.scalar (String.ofList (a :: word)) true])
    (hmarks : ∀ d ∈ a :: word, IsMark d) (hmark : isIndicator a = false) (hdot : a ≠ '.')
    (hword : ∀ d ∈ a :: word, IsPlain d) : TakesValue layout value := by
  intro s level v w c rest hs hflow hv hw hc hrest
  rw [unified, hwrite, map_unifyBreak_of_isMark hmarks] at hrest
  have hsolid := isSolid_of_isPlain (hword a List.mem_cons_self) hmark
  obtain ⟨p, hp⟩ := hs.exists_passes_spacing hflow hv hsolid hrest
  obtain ⟨t, ht, hteq⟩ := hp.flat.exists_passes_word hflow hmark hdot hword hw hc
    (by simp : _ = a :: word ++ w ++ c :: rest)
  rw [htokens]
  exact ⟨t, hp.trans ht, hteq⟩

/-- **The text of a value gives its tokens**, with its texts folded and whatever white space is
around it, or makes the reader fail.

**Proof sketch.** Induction on the evidence for the shape of `value`. Truth values and numbers are
plain words (`Lexer.takesValue_of_word`); texts, arrays and objects are taken alone
(`Lexer.Flat.takes_string`, `Lexer.Flat.takes_array`, `Lexer.Flat.takes_object`), and so between
white space too. -/
theorem takesValue (layout : Layout) {depth : Nat} {value : Json} (h : Shaped depth value) :
    TakesValue layout value := by
  induction h with
  | boolean value =>
    cases value
    · exact takesValue_of_word layout (.boolean false) (fun _ => rfl) rfl
        (forall_mem_of_all (by decide)) (by decide) (by decide) (forall_mem_of_all (by decide))
    · exact takesValue_of_word layout (.boolean true) (fun _ => rfl) rfl
        (forall_mem_of_all (by decide)) (by decide) (by decide) (forall_mem_of_all (by decide))
  | @number depth n fits =>
    obtain ⟨a, word, hdigits, ha⟩ := exists_toDigits_eq_cons n
    have hdigit : ∀ d ∈ a :: word, d.isDigit := fun d hd =>
      Nat.isDigit_of_mem_toDigits (by decide) (by decide) (hdigits ▸ hd)
    refine takesValue_of_word layout (.number n) (fun _ => by rw [write, hdigits])
      (by rw [foldTokens?, Json.fold?, Option.map_some, Json.tokens, hdigits])
      (fun d hd => isMark_of_isDigit (hdigit d hd)) ?_ ?_
      fun d hd => isPlain_of_isDigit (hdigit d hd)
    · simp only [isIndicator, isFlowMark, Bool.or_eq_false_iff, beq_eq_false_iff_ne]
      and_intros <;> rintro rfl <;> exact absurd ha (by decide)
    · rintro rfl
      exact absurd ha (by decide)
  | string text =>
    exact takesValue_of_takes layout (.string text) (by decide : IsSolid '"')
      (fun _ => ⟨_, by rw [← List.append_nil (unified _ _ _), unified_string]⟩)
      fun level _ hs hrest => hs.takes_string layout level hrest
  | @array depth items shaped ih =>
    exact takesValue_of_takes layout (.array items) (by decide : IsSolid '[')
      (fun _ => by cases items <;> exact ⟨_, rfl⟩)
      fun level rest hs hrest => hs.takes_array ih level rest hrest
  | @object depth fields keys distinct shaped ih =>
    refine takesValue_of_takes layout (.object fields) (by decide : IsSolid '{')
      (fun _ => by cases fields <;> exact ⟨_, rfl⟩)
      fun level rest hs hrest => hs.takes_object ?_ level rest hrest
    exact fun field hfield => ⟨keys field hfield, ih field hfield⟩

end Collections

end Yaml.Lexer

/-! ## Whole texts -/

namespace Yaml

/-- **The text of an object is read to its end**, and behind a last break too. It gives the tokens
of the object with its texts folded, if it may stand in a stream at all.

**Proof sketch.** There is no carriage return in the text (`Json.return_notMem_write`), so its
breaks are unified one by one. The object is taken from the first state (`Lexer.Flat.takes_object`),
and at the end the tokens are complete (`Lexer.Flat.run_eq`, `Lexer.Flat.run_line`). -/
theorem tokens?_write_append (layout : Json.Layout) {depth : Nat} {fields : List (String × Json)}
    (h : Json.Shaped depth (.object fields)) {ending : List Char}
    (hending : ending = [] ∨ ending = ['\n'])
    (hallowed : (Json.write layout 0 (.object fields) ++ ending).all isAllowed = true) :
    tokens? (Json.write layout 0 (.object fields) ++ ending) =
      (Json.object fields).foldTokens? := by
  obtain ⟨rest, hrest⟩ : ∃ rest, Json.unified layout 0 (.object fields) = '{' :: rest := by
    cases fields <;> exact ⟨_, rfl⟩
  have hreturn : '\r' ∉ Json.write layout 0 (.object fields) ++ ending := by
    rw [List.mem_append, not_or]
    exact ⟨Json.return_notMem_write 0 _, by rcases hending with rfl | rfl <;> decide⟩
  have hunify : unifyBreaks (Json.write layout 0 (.object fields) ++ ending) =
      '{' :: (rest ++ ending) := by
    rw [unifyBreaks_eq_map hreturn, List.map_append, ← List.cons_append, ← hrest]
    rcases hending with rfl | rfl <;> rfl
  have hflat : (Lexer.start ('{' :: (rest ++ ending)) .start).Flat :=
    ⟨rfl, by simp [Lexer.start], by simp [Lexer.start]⟩
  have hfields : ∀ field ∈ fields, Json.IsKey field.1 ∧ Lexer.TakesValue layout field.2 := by
    cases h with
    | object keys distinct shaped =>
      intro field hfield
      exact ⟨keys field hfield, Lexer.takesValue layout (shaped field hfield)⟩
  have htaken := hflat.takes_object hfields 0 ending (by rw [hrest]; rfl)
  rw [tokens?, if_pos hallowed, hunify]
  simp only
  rw [if_neg (by decide)]
  cases htokens : (Json.object fields).foldTokens? with
  | none =>
    rw [htokens] at htaken
    exact htaken ((rest ++ ending).length + 2) (by simp [Lexer.start])
  | some tokens =>
    rw [htokens] at htaken
    obtain ⟨t, ht, -⟩ := htaken
    obtain ⟨fuel, hfuel, hrun⟩ := ht.leads ((rest ++ ending).length + 2) (by simp [Lexer.start])
    obtain ⟨fuel, rfl⟩ : ∃ k, fuel = k + 1 := ⟨fuel - 1, by omega⟩
    have hlast : t.run (fuel + 1) = some t.tokens.reverse := by
      rcases hending with rfl | rfl
      · exact ht.flat.run_eq ht.rest_eq fuel
      · exact ht.flat.run_line ht.rest_eq fuel
    rw [hrun, hlast, ht.tokens_eq]
    simp [Lexer.start]

/-- The same of the text alone, without an `ending`. -/
lemma tokens?_write (layout : Json.Layout) {depth : Nat} {fields : List (String × Json)}
    (h : Json.Shaped depth (.object fields))
    (hallowed : (Json.write layout 0 (.object fields)).all isAllowed = true) :
    tokens? (Json.write layout 0 (.object fields)) = (Json.object fields).foldTokens? := by
  have hwhole := tokens?_write_append layout h (.inl rfl) (by rwa [List.append_nil])
  rwa [List.append_nil] at hwhole

end Yaml

end FirmwareBundle
