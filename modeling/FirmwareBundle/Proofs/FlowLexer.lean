import FirmwareBundle.Yaml.Lexer
import FirmwareBundle.Proofs.JsonTree
/-!
# Tokens inside flow collections

The text of a value is one flow collection, so no indentation is ever open while it is read, and a
key is recognised by the colon right behind it. The reader passes over the text of each token and
adds the token, whatever follows.

## Main definitions

* `FirmwareBundle.Yaml.Lexer.Flat` — no block collection is open and no key is required.
* `FirmwareBundle.Yaml.Lexer.Passes` — some text is passed over and gives some tokens.

## Main results

* `FirmwareBundle.Yaml.Lexer.Flat.exists_fetch_quoted` — what is read between quotes is a scalar.
* `FirmwareBundle.Yaml.Lexer.Flat.exists_passes_key` — quoted text in front of a colon is a key.
* `FirmwareBundle.Yaml.Lexer.Flat.exists_passes_word` — a plain word is a scalar.
-/

namespace FirmwareBundle.Yaml

namespace Lexer

variable {s t u : Lexer}

/-! ## States without block collections -/

/-- In the state `s` no block collection is open, and no key is required where one may begin. -/
structure Flat (s : Lexer) : Prop where
  indents : s.indents = []
  pending : ∀ k ∈ s.pending, k.required = false
  enclosing : ∀ o ∈ s.enclosing, ∀ k ∈ o, k.required = false

/-- Without block collections there are none to be closed, whichever `keep` keeps. -/
lemma closeBlocks_of_indents (h : s.indents = []) (keep : Nat → Bool) :
    s.closeBlocks keep = s := by
  unfold closeBlocks
  split
  · rfl
  · simp only [h, List.takeWhile_nil, List.length_nil, List.drop_nil, List.foldl_nil, Nat.add_zero]
    rw [← h]

/-- A key that is not required may be given up. -/
lemma Flat.dropKey_eq (hs : s.Flat) : s.dropKey = some { s with pending := none } := by
  unfold dropKey
  split
  · rename_i k hk
    rw [if_neg (by simp [hs.pending k hk])]
  · rename_i hk
    rw [← hk]

/-- The next token is read whether or not a key may begin there; if one may, its place is kept. -/
lemma Flat.exists_saveKey_eq (hs : s.Flat) :
    ∃ o : Option PendingKey, s.saveKey = some { s with pending := o } ∧
      (∀ k ∈ o, k.required = false) ∧
      (s.keyAllowed → o = some ⟨s.count, s.position, false⟩) := by
  by_cases h : s.keyAllowed
  · refine ⟨some ⟨s.count, s.position, false⟩, ?_, by simp, fun _ => rfl⟩
    simp [saveKey, h, hs.dropKey_eq, hs.indents]
  · exact ⟨s.pending, by rw [saveKey, if_neg h], hs.pending, fun hallowed => absurd hallowed h⟩

/-! ## White space -/

section Spaces

variable {c : Char} {rest : List Char}

/-- Spaces, `n` of them, are passed over up to a character `c` that is no white space. -/
private lemma skipIgnored_spaces (hc : IsSolid c) {n : Nat}
    (hrest : s.rest = List.replicate n ' ' ++ c :: rest) (fuel : Nat) :
    s.skipIgnored (fuel + 1) = { s with rest := c :: rest, position := s.position.advance n } := by
  obtain ⟨hblank, hbreak, hcomment⟩ := hc
  simp only [isBlank, Bool.or_eq_false_iff, beq_eq_false_iff_ne] at hblank
  have htake : ∀ tabs : Bool, s.rest.takeWhile (fun c => c == ' ' || (tabs && c == '\t')) =
      List.replicate n ' ' := by
    intro tabs
    rw [hrest, List.takeWhile_append_of_pos (by simp)]
    simp [hblank]
  have hskip : s.skip n = { s with rest := c :: rest, position := s.position.advance n } := by
    rw [skip, hrest, List.drop_left' List.length_replicate]
  simp [skipIgnored, htake, hskip, hcomment, hbreak]

/-- Nothing is passed over in front of a character `c` that is no white space. -/
lemma skipIgnored_of_isSolid (hc : IsSolid c) (hrest : s.rest = c :: rest) (fuel : Nat) :
    s.skipIgnored (fuel + 1) = s := by
  rw [skipIgnored_spaces (n := 0) hc (by simpa using hrest), ← hrest]
  rfl

/-- In a flow collection white space `w` is passed over whatever it is made of: behind a line break
the spaces are passed over as those on the same line are (`Lexer.skipIgnored_spaces`). -/
private lemma exists_skipIgnored_spacing (hflow : s.inFlow) {w : List Char} (hw : Spacing w)
    (hc : IsSolid c) (hrest : s.rest = w ++ c :: rest) :
    ∃ p, ∀ fuel, s.rest.length ≤ fuel →
      s.skipIgnored (fuel + 1) = { s with rest := c :: rest, position := p } := by
  obtain ⟨n, rfl | rfl⟩ := hw
  · exact ⟨_, fun fuel _ => skipIgnored_spaces hc hrest fuel⟩
  · refine ⟨s.position.newline.advance n, fun fuel hfuel => ?_⟩
    obtain ⟨fuel, rfl⟩ : ∃ k, fuel = k + 1 := ⟨fuel - 1, by simp [hrest] at hfuel; omega⟩
    have hskip : s.skip 0 = s := rfl
    have htake : ∀ tabs : Bool, s.rest.takeWhile (fun c => c == ' ' || (tabs && c == '\t')) =
        [] := by simp [hrest]
    rw [skipIgnored, htake, List.length_nil, hskip]
    simp only [hrest, List.cons_append, List.head?_cons, Option.some.injEq, Char.reduceEq,
      ↓reduceIte, hflow, Bool.not_true, Bool.or_false]
    rw [if_pos (by decide), skipIgnored_spaces hc rfl]

end Spaces

/-! ## Runs -/

/-- From the state `s` the reader comes to `t`, with enough fuel in both. -/
def Leads (s t : Lexer) : Prop :=
  ∀ fuel, s.rest.length < fuel → ∃ fuel', t.rest.length < fuel' ∧ s.run fuel = t.run fuel'

/-- If `s` leads to `t` and `t` to `u`, then `s` leads to `u`. -/
lemma Leads.trans (hst : s.Leads t) (htu : t.Leads u) : s.Leads u := by
  intro fuel hfuel
  obtain ⟨fuel', hfuel', hrun⟩ := hst fuel hfuel
  obtain ⟨fuel'', hfuel'', hrun'⟩ := htu fuel' hfuel'
  exact ⟨fuel'', hfuel'', hrun.trans hrun'⟩

/-- The state `s` leads to the state `t` after its next token, which starts with the character
`c`. -/
private lemma leads_of_fetch (hs : s.indents = []) {c : Char} {rest : List Char} (hc : IsSolid c)
    (hrest : s.rest = c :: rest) (hfetch : s.fetch c rest = some t)
    (hlength : t.rest.length ≤ rest.length) : s.Leads t := by
  intro fuel hfuel
  rw [hrest, List.length_cons] at hfuel
  obtain ⟨fuel, rfl⟩ : ∃ k, fuel = k + 1 := ⟨fuel - 1, by omega⟩
  refine ⟨fuel, by omega, ?_⟩
  rw [run, skipIgnored_of_isSolid hc hrest, closeBlocks_of_indents hs]
  simp [hrest, hfetch]

/-- In a flow collection a state leads to the one behind the white space `w`. -/
private lemma exists_leads_spacing (hflow : s.inFlow) {w : List Char}
    (hw : Spacing w) {c : Char} {rest : List Char} (hc : IsSolid c)
    (hrest : s.rest = w ++ c :: rest) :
    ∃ p, s.Leads { s with rest := c :: rest, position := p } := by
  obtain ⟨p, hskip⟩ := exists_skipIgnored_spacing hflow hw hc hrest
  refine ⟨p, fun fuel hfuel => ⟨fuel, by simp [hrest] at hfuel ⊢; omega, ?_⟩⟩
  obtain ⟨fuel, rfl⟩ : ∃ k, fuel = k + 1 := ⟨fuel - 1, by omega⟩
  rw [run, run, hskip fuel (by omega), skipIgnored_of_isSolid hc rfl]

/-- At the end of the text the tokens are complete, whatever `fuel` is left. -/
lemma Flat.run_eq (hs : s.Flat) (hrest : s.rest = []) (fuel : Nat) :
    s.run (fuel + 1) = some s.tokens.reverse := by
  have hskip : s.skipIgnored (fuel + 1) = s := by
    have hzero : s.skip 0 = s := rfl
    simp [skipIgnored, hrest, hzero]
  rw [run, hskip, closeBlocks_of_indents hs.indents]
  simp [hrest, closeBlocks_of_indents hs.indents, hs.dropKey_eq]

/-- So they are at the end of the last line, in front of its break. -/
lemma Flat.run_line (hs : s.Flat) (hrest : s.rest = ['\n']) (fuel : Nat) :
    s.run (fuel + 1) = some s.tokens.reverse := by
  let t : Lexer := { s with
    rest := [], position := s.position.newline, keyAllowed := s.keyAllowed || !s.inFlow }
  have ht : t.Flat := ⟨hs.indents, hs.pending, hs.enclosing⟩
  have hzero : ∀ u : Lexer, u.skip 0 = u := fun _ => rfl
  have hend : t.skipIgnored fuel = t := by
    cases fuel <;> simp [skipIgnored, hzero, t]
  have hskip : s.skipIgnored (fuel + 1) = t := by
    have hbreak : isBreak '\n' = true := by decide
    rw [skipIgnored, ← hend]
    simp [hrest, hzero, hbreak, t]
  rw [run, hskip, closeBlocks_of_indents ht.indents]
  simp [closeBlocks_of_indents ht.indents, ht.dropKey_eq, t]

/-! ## Text that is passed over -/

/-- The text in front of `rest` is passed over, gives the `tokens`, and leaves the state `t`. -/
structure Passes (s : Lexer) (tokens : List Token) (rest : List Char) (t : Lexer) : Prop where
  leads : s.Leads t
  flat : t.Flat
  tokens_eq : t.tokens = tokens.reverse ++ s.tokens
  rest_eq : t.rest = rest

/-- Two parts of a text give their tokens, `first` and `second`, one after the other. -/
lemma Passes.trans {first second : List Token} {rest rest' : List Char}
    (hst : s.Passes first rest t) (htu : t.Passes second rest' u) :
    s.Passes (first ++ second) rest' u where
  leads := hst.leads.trans htu.leads
  flat := htu.flat
  tokens_eq := by simp [htu.tokens_eq, hst.tokens_eq]
  rest_eq := htu.rest_eq

section Parts

variable {c : Char} {token : Token} {rest : List Char}

/-- A state that reads one `token`, which starts with `c`, passes over its text. -/
lemma Flat.passes_of_fetch (hs : s.Flat) {tail : List Char} (hc : IsSolid c)
    (hrest : s.rest = c :: tail) (hfetch : s.fetch c tail = some t) (ht : t.Flat)
    (htokens : t.tokens = token :: s.tokens) (htail : ∃ text, tail = text ++ t.rest) :
    s.Passes [token] t.rest t := by
  obtain ⟨text, htail⟩ := htail
  refine ⟨leads_of_fetch hs.indents hc hrest hfetch ?_, ht, by simp [htokens], rfl⟩
  simp [htail]

/-- White space `w` gives no tokens. -/
lemma Flat.exists_passes_spacing (hs : s.Flat) (hflow : s.inFlow) {w : List Char}
    (hw : Spacing w) (hc : IsSolid c) (hrest : s.rest = w ++ c :: rest) :
    ∃ p, s.Passes [] (c :: rest) { s with rest := c :: rest, position := p } := by
  obtain ⟨p, hleads⟩ := exists_leads_spacing hflow hw hc hrest
  exact ⟨p, hleads, ⟨hs.indents, hs.pending, hs.enclosing⟩, rfl, rfl⟩

/-- The mark `c` that opens a collection gives its `token`, and a key may begin behind it. -/
lemma Flat.exists_passes_open (hs : s.Flat)
    (hc : c = '[' ∧ token = .flowSequenceStart ∨ c = '{' ∧ token = .flowMappingStart)
    (hrest : s.rest = c :: rest) :
    ∃ t o, s.Passes [token] rest t ∧ t.keyAllowed ∧ t.enclosing = o :: s.enclosing := by
  obtain ⟨o, hsave, ho, -⟩ := hs.exists_saveKey_eq
  let t : Lexer := { s with
    rest, position := s.position.advance 1, keyAllowed := true, pending := none
    enclosing := o :: s.enclosing, tokens := token :: s.tokens, count := s.count + 1 }
  have hfetch : s.fetch c rest = some t := by
    rcases hc with ⟨rfl, rfl⟩ | ⟨rfl, rfl⟩ <;>
      simp [fetch, startsDocumentMark_cons_of_ne, fetchFlowStart, hsave, skip, emit, hrest, t]
  have hsolid : IsSolid c := by
    rcases hc with ⟨rfl, -⟩ | ⟨rfl, -⟩ <;> decide
  have ht : t.Flat := ⟨hs.indents, by simp [t], by simpa [t] using ⟨ho, hs.enclosing⟩⟩
  exact ⟨t, o, hs.passes_of_fetch hsolid hrest hfetch ht rfl ⟨[], rfl⟩, rfl, rfl⟩

/-- The mark `c` that closes a collection gives its `token`, and the collections around it, `outer`,
are still open. -/
lemma Flat.exists_passes_close (hs : s.Flat)
    (hc : c = ']' ∧ token = .flowSequenceEnd ∨ c = '}' ∧ token = .flowMappingEnd)
    (hrest : s.rest = c :: rest) {o : Option PendingKey} {outer : List (Option PendingKey)}
    (henclosing : s.enclosing = o :: outer) :
    ∃ t, s.Passes [token] rest t ∧ t.enclosing = outer := by
  let t : Lexer := { s with
    rest, position := s.position.advance 1, keyAllowed := false, pending := o
    enclosing := outer, tokens := token :: s.tokens, count := s.count + 1 }
  have hfetch : s.fetch c rest = some t := by
    rcases hc with ⟨rfl, rfl⟩ | ⟨rfl, rfl⟩ <;>
      simp [fetch, startsDocumentMark_cons_of_ne, fetchFlowEnd, hs.dropKey_eq, henclosing, skip,
        emit, hrest, t]
  have hsolid : IsSolid c := by
    rcases hc with ⟨rfl, -⟩ | ⟨rfl, -⟩ <;> decide
  have henclosed := hs.enclosing
  rw [henclosing, List.forall_mem_cons] at henclosed
  have ht : t.Flat := ⟨hs.indents, henclosed.1, henclosed.2⟩
  exact ⟨t, hs.passes_of_fetch hsolid hrest hfetch ht rfl ⟨[], rfl⟩, rfl⟩

/-- A comma gives its token, and a key may begin behind it. -/
lemma Flat.exists_passes_comma (hs : s.Flat) (hrest : s.rest = ',' :: rest) :
    ∃ t, s.Passes [.flowEntry] rest t ∧ t.keyAllowed ∧ t.enclosing = s.enclosing := by
  let t : Lexer := { s with
    rest, position := s.position.advance 1, keyAllowed := true, pending := none
    tokens := .flowEntry :: s.tokens, count := s.count + 1 }
  have hfetch : s.fetch ',' rest = some t := by
    simp [fetch, startsDocumentMark_cons_of_ne, fetchFlowEntry, hs.dropKey_eq, skip, emit, hrest, t]
  have ht : t.Flat := ⟨hs.indents, by simp [t], hs.enclosing⟩
  exact ⟨t, hs.passes_of_fetch (by decide) hrest hfetch ht rfl ⟨[], rfl⟩, rfl, rfl⟩

/-- What is read between quotes gives a scalar, and the place of its quote is kept, as `o`, if a key
may begin there. No such key is required. -/
theorem Flat.exists_fetch_quoted (hs : s.Flat) {tail : List Char} (hrest : s.rest = '"' :: tail) :
    ∃ o : Option PendingKey, (∀ k ∈ o, k.required = false) ∧
      (s.keyAllowed → o = some ⟨s.count, s.position, false⟩) ∧
      s.fetch '"' tail = (readQuoted false tail (s.position.advance 1)).map fun r =>
        { s with
          rest := r.rest, position := r.position, keyAllowed := false, pending := o
          tokens := .scalar (String.ofList r.value) false :: s.tokens, count := s.count + 1 } := by
  obtain ⟨o, hsave, ho, hkey⟩ := hs.exists_saveKey_eq
  refine ⟨o, ho, hkey, ?_⟩
  cases hread : readQuoted false tail (s.position.advance 1) <;>
    simp [fetch, startsDocumentMark_cons_of_ne, fetchQuoted, hsave, hrest, hread, emit]

/-- Quoted text in front of a colon gives a key, with its mark put in before it.

**Proof sketch.** The scalar is read first (`Lexer.Flat.exists_fetch_quoted`,
`readQuoted_writeString`), and the place of its quote is kept. It is short and on one line, so the
place is still kept at the colon, where the mark of a key is put in before the scalar and the mark
of a value behind it. -/
theorem Flat.exists_passes_key (hs : s.Flat) (hflow : s.inFlow) (hallowed : s.keyAllowed)
    {key : String} (hkey : Json.IsKey key) (hrest : s.rest = Json.writeString key ++ ':' :: rest) :
    ∃ t, s.Passes [.key, .scalar key false, .value] rest t ∧ t.enclosing = s.enclosing := by
  have hquote : s.rest = '"' :: (key.toList.flatMap Json.writeChar ++ '"' :: ':' :: rest) := by
    simp [hrest, Json.writeString]
  obtain ⟨o, -, ho, hfetch⟩ := hs.exists_fetch_quoted hquote
  obtain rfl := ho hallowed
  rw [readQuoted_writeString hkey.1, Option.map_some, String.ofList_toList] at hfetch
  let t : Lexer := { s with
    rest := ':' :: rest, position := s.position.advance (Json.writeString key).length
    keyAllowed := false, pending := some ⟨s.count, s.position, false⟩
    tokens := .scalar key false :: s.tokens, count := s.count + 1 }
  have ht : t.Flat := ⟨hs.indents, by simp [t], hs.enclosing⟩
  have hquoted : s.Passes [.scalar key false] (':' :: rest) t :=
    hs.passes_of_fetch (by decide) hquote hfetch ht rfl
      ⟨key.toList.flatMap Json.writeChar ++ ['"'], by simp⟩
  -- the scalar was kept as a possible key, so the key mark goes in before it
  let u : Lexer := { t with
    rest, position := t.position.advance 1, keyAllowed := false, pending := none
    tokens := .value :: .scalar key false :: .key :: s.tokens, count := t.count + 2 }
  have hcolon : t.fetch ':' rest = some u := by
    have hreach : inReach ⟨s.count, s.position, false⟩ t.position := by
      simpa [inReach, t, Position.advance] using hkey.2
    have hopen : s.enclosing.isEmpty = false := by simpa [inFlow] using hflow
    simp [fetch, startsDocumentMark_cons_of_ne, fetchValue, hreach, t, u, insert,
      openBlock, inFlow, hopen, skip, emit]
  have hu : u.Flat := ⟨hs.indents, by simp [u], hs.enclosing⟩
  have hmark := leads_of_fetch ht.indents (by decide) rfl hcolon (Nat.le_refl _)
  exact ⟨u, ⟨hquoted.leads.trans hmark, hu, rfl, rfl⟩, rfl⟩

/-- A character `c` that is no mark starts a plain scalar. -/
private lemma fetch_eq_fetchPlain (hblank : isBlank c = false) (hmark : isIndicator c = false)
    (hdot : c ≠ '.') (tail : List Char) : s.fetch c tail = s.fetchPlain := by
  simp only [isIndicator, isFlowMark, Bool.or_eq_false_iff, beq_eq_false_iff_ne] at hmark
  simp [fetch, startsDocumentMark_cons_of_ne, hmark, hdot, hblank, isIndicator, isFlowMark]

/-- A character `c` of plain words that is no mark is no white space either. -/
lemma isSolid_of_isPlain (h : IsPlain c) (hmark : isIndicator c = false) : IsSolid c := by
  obtain ⟨hblank, hbreak, -⟩ := h
  refine ⟨hblank, hbreak, ?_⟩
  rintro rfl
  revert hmark
  decide

/-- A plain word, `a :: word`, in front of the mark `c` gives a scalar, and the white space `w`
between them gives none.

**Proof sketch.** The word starts a plain scalar (`Lexer.fetch_eq_fetchPlain`), which is read up to
the mark with the white space (`readPlain_word`). -/
theorem Flat.exists_passes_word (hs : s.Flat) (hflow : s.inFlow) {a : Char} {word w : List Char}
    (hmark : isIndicator a = false) (hdot : a ≠ '.') (hword : ∀ d ∈ a :: word, IsPlain d)
    (hw : Spacing w) (hc : isFlowMark c) (hrest : s.rest = a :: word ++ w ++ c :: rest) :
    ∃ t, s.Passes [.scalar (String.ofList (a :: word)) true] (c :: rest) t ∧
      t.enclosing = s.enclosing := by
  obtain ⟨o, hsave, ho, -⟩ := hs.exists_saveKey_eq
  obtain ⟨broken, p, hread⟩ := readPlain_word s.parent hword hw hc s.position rest
  have hplain := hword a List.mem_cons_self
  let t : Lexer := { s with
    rest := c :: rest, position := p, keyAllowed := broken, pending := o
    tokens := .scalar (String.ofList (a :: word)) true :: s.tokens, count := s.count + 1 }
  have hfetch : s.fetch a (word ++ w ++ c :: rest) = some t := by
    have hflow' : ({ s with pending := o } : Lexer).inFlow = true := hflow
    rw [fetch_eq_fetchPlain hplain.1 hmark hdot, fetchPlain, hsave]
    show (readPlain ({ s with pending := o } : Lexer).inFlow s.parent s.rest s.position).bind _ = _
    rw [hflow', hrest, hread]
    rfl
  have ht : t.Flat := ⟨hs.indents, ho, hs.enclosing⟩
  exact ⟨t, hs.passes_of_fetch (isSolid_of_isPlain hplain hmark) hrest hfetch ht rfl
    ⟨word ++ w, rfl⟩, rfl⟩

end Parts

end Lexer

end FirmwareBundle.Yaml
