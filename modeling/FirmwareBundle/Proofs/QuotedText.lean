import FirmwareBundle.Json
import FirmwareBundle.Yaml.ScalarText
import Mathlib.Tactic.Common
/-!
# Text between quotes read back

A text that is written between the quotes of a header is read back as it was, provided that its
characters are ones that a stream may hold and that do not break its line.

## Main definitions

* `FirmwareBundle.Yaml.IsSafe` — the characters that mean themselves between quotes.
* `FirmwareBundle.Yaml.SafeText` — the texts of such characters.

## Main results

* `FirmwareBundle.Yaml.readQuoted_writeString` — the text is read back, and the reader stops behind
  the closing quote.
-/

namespace FirmwareBundle.Yaml

/-! ## Safe characters -/

/-- The characters that mean themselves between the quotes of a header: all that a stream may hold
but the next line character, the two separators and the byte order mark, and the control characters
below the space, which are escaped. -/
def IsSafe (c : Char) : Prop :=
  c.toNat ≤ 0x1f ∨ (0x20 ≤ c.toNat ∧ c.toNat ≤ 0x7e) ∨
    (0xa0 ≤ c.toNat ∧ c.toNat ≤ 0xd7ff ∧ c.toNat ≠ 0x2028 ∧ c.toNat ≠ 0x2029) ∨
    (0xe000 ≤ c.toNat ∧ c.toNat ≤ 0xfffd ∧ c.toNat ≠ 0xfeff) ∨ 0x10000 ≤ c.toNat

instance : DecidablePred IsSafe := fun c => by
  unfold IsSafe
  infer_instance

/-- All characters of the text `s` are safe. -/
def SafeText (s : String) : Prop := ∀ c ∈ s.toList, IsSafe c

instance : DecidablePred SafeText := fun s =>
  List.decidableBAll IsSafe s.toList

/-- The items of `xs` are checked one by one. -/
lemma forall_mem_of_all {α : Type} {p : α → Prop} [DecidablePred p] {xs : List α}
    (h : xs.all fun x => p x) : ∀ x ∈ xs, p x := fun x hx => by
  simpa using List.all_eq_true.1 h x hx

/-- A safe character `c` from the space on is no break. -/
private lemma IsSafe.not_isBreak {c : Char} (h : IsSafe c) (hc : ' ' ≤ c) : isBreak c = false := by
  have hn : 0x20 ≤ c.toNat := hc
  simp only [isBreak, lineSeparator, paragraphSeparator, Bool.or_eq_false_iff, beq_eq_false_iff_ne]
  refine ⟨⟨?_, ?_⟩, ?_⟩ <;> rintro rfl <;> revert h hn <;> decide

/-! ## Escapes -/

/-- The digit of a number `n` below sixteen is read back. -/
private lemma hexDigit?_digitChar : ∀ n < 16, Hex.digit? (Nat.digitChar n) = some n := by
  decide

/-- The character `c` is read back from its code point. -/
private lemma charOf?_toNat (c : Char) : charOf? c.toNat = some c := by
  have h : c.toNat.isValidChar := c.valid
  rw [charOf?, dif_pos h]
  rfl

/-- A numeric escape of two zeros and the two digits of a control character `c` is read back.

**Proof sketch.** Each digit is read back (`hexDigit?_digitChar`), and together they are the code
point of `c`, which is below `0x20`. The character is the one of this code point
(`charOf?_toNat`). -/
private lemma escape?_control {c : Char} (h : c < ' ') (rest : List Char) :
    escape? ('u' :: '0' :: '0' :: Hex.ofByte c.toNat.toUInt8 ++ rest) = some (c, 5) := by
  have hn : c.toNat < 0x20 := h
  have hbyte : c.toNat.toUInt8.toNat = c.toNat := by
    rw [Nat.toUInt8, UInt8.toNat_ofNat']; omega
  have hhigh := hexDigit?_digitChar (c.toNat / 16) (by omega)
  have hlow := hexDigit?_digitChar (c.toNat % 16) (by omega)
  have hzero : Hex.digit? '0' = some 0 := by decide
  have hvalue : Hex.toNat? ['0', '0', Nat.digitChar (c.toNat / 16), Nat.digitChar (c.toNat % 16)] =
      some c.toNat := by
    simp only [Hex.toNat?, List.foldlM_cons, List.foldlM_nil, hzero, hhigh, hlow, Option.map_some,
      Option.bind_eq_bind, Option.bind_some, Option.pure_def]
    congr 1
    omega
  rw [Hex.ofByte, hbyte]
  show ((Hex.toNat? ['0', '0', Nat.digitChar (c.toNat / 16), Nat.digitChar (c.toNat % 16)]).bind
    fun n => (charOf? n).bind fun x => some (x, 5)) = some (c, 5)
  rw [hvalue, Option.bind_some, charOf?_toNat, Option.bind_some]

/-! ## Quoted text -/

/-- A `gap` without a break keeps a blank `c`. -/
private lemma Gap.text_blank {gap : Gap} (h : gap.isBroken = false) (c : Char) :
    (gap.blank c).text = gap.text ++ [c] ∧ (gap.blank c).isBroken = false := by
  cases gap with
  | none => exact ⟨rfl, rfl⟩
  | blanks text => exact ⟨by simp [Gap.blank, Gap.text], rfl⟩
  | breaks first more => cases h

section Quoted

variable {p : Position} {gap : Gap} {acc rest : List Char}

/-- A text that starts with some `c` other than `mark` starts with no document mark. -/
lemma startsDocumentMark_cons_of_ne {mark c : Char} (h : c ≠ mark) (rest : List Char) :
    startsDocumentMark mark (c :: rest) = false := by
  unfold startsDocumentMark
  split
  · rename_i heq
    obtain ⟨rfl, -⟩ := List.cons.inj heq
    simp [h]
  · rfl

/-- The characters of an escape, all of `skipped`, are passed over one by one. -/
private lemma quotedFrom_skip (skipped : List Char) :
    quotedFrom false (skipped ++ rest) p skipped.length .none acc =
      quotedFrom false rest p 0 .none acc := by
  induction skipped with
  | nil => rfl
  | cons x skipped ih => exact ih

/-- The escape of `x` and the characters `escaped` puts the character `c` that it means behind the
text so far, with the `gap` before it. The characters of the escape are then skipped
(`quotedFrom_skip`). -/
private lemma quotedFrom_escape {c x : Char} (escaped : List Char) (hbreak : isBreak x = false)
    (hescape : escape? (x :: escaped ++ rest) = some (c, (x :: escaped).length)) :
    quotedFrom false ('\\' :: x :: escaped ++ rest) p 0 gap acc =
      quotedFrom false rest (p.advance (escaped.length + 2)) 0 .none
        (c :: (gap.text.reverse ++ acc)) := by
  have hmark : ∀ text, atDocumentMark ('\\' :: text) = false := by
    intro text
    rw [atDocumentMark, startsDocumentMark_cons_of_ne (by decide),
      startsDocumentMark_cons_of_ne (by decide), Bool.or_self]
  rw [List.cons_append] at hescape
  rw [List.cons_append, List.cons_append, quotedFrom, if_neg (by simp [hmark]),
    if_neg (by decide), if_neg (by decide)]
  simp only [Bool.false_eq_true, ↓reduceIte, Char.reduceEq, not_false_eq_true, and_self,
    List.head?_cons, Option.any_some, hbreak, hescape, List.length_cons]
  exact quotedFrom_skip (x :: escaped)

/-- The characters that are written as they are: those from the space on but the quote and the
backslash. -/
lemma writeChar_eq_singleton_iff {c : Char} :
    Json.writeChar c = [c] ↔ ' ' ≤ c ∧ c ≠ '"' ∧ c ≠ '\\' := by
  constructor
  · intro h
    refine ⟨Char.not_lt.1 fun hcontrol => ?_, ?_, ?_⟩
    · unfold Json.writeChar at h
      split_ifs at h <;> cases h
    · rintro rfl
      cases h
    · rintro rfl
      cases h
  · rintro ⟨hspace, hquote, hbackslash⟩
    have hcontrol : ∀ d, d < ' ' → c ≠ d := fun d hd heq =>
      absurd (heq ▸ hspace) (Char.not_le.2 hd)
    simp only [Json.writeChar, hquote, hbackslash, hcontrol '\x08' (by decide),
      hcontrol '\x0c' (by decide), hcontrol '\n' (by decide), hcontrol '\r' (by decide),
      hcontrol '\t' (by decide), Char.not_lt.2 hspace, if_false]

/-- A character `c` that is escaped is read back, wherever it stands.

**Proof sketch.** The cases are those of `Json.writeChar`: an escape of one letter for five control
characters and for the quote and the backslash, and a numeric one for the other control characters
(`escape?_control`). Both are read by `quotedFrom_escape`. -/
lemma quotedFrom_writeChar_of_ne {c : Char} (hc : Json.writeChar c ≠ [c]) (acc rest : List Char) :
    quotedFrom false (Json.writeChar c ++ rest) p 0 gap acc =
      quotedFrom false rest (p.advance (Json.writeChar c).length) 0 .none
        (c :: (gap.text.reverse ++ acc)) := by
  have hletter : ∀ x, Json.writeChar c = ['\\', x] → isBreak x = false →
      letterEscape? x = some c →
      quotedFrom false (Json.writeChar c ++ rest) p 0 gap acc =
        quotedFrom false rest (p.advance (Json.writeChar c).length) 0 .none
          (c :: (gap.text.reverse ++ acc)) := by
    intro x hwrite hbreak hletter
    rw [hwrite]
    exact quotedFrom_escape [] hbreak (by simp [escape?, hletter])
  by_cases h1 : c = '"'
  · subst h1; exact hletter '"' rfl (by decide) rfl
  by_cases h2 : c = '\\'
  · subst h2; exact hletter '\\' rfl (by decide) rfl
  by_cases h3 : c = '\x08'
  · subst h3; exact hletter 'b' rfl (by decide) rfl
  by_cases h4 : c = '\x0c'
  · subst h4; exact hletter 'f' rfl (by decide) rfl
  by_cases h5 : c = '\n'
  · subst h5; exact hletter 'n' rfl (by decide) rfl
  by_cases h6 : c = '\r'
  · subst h6; exact hletter 'r' rfl (by decide) rfl
  by_cases h7 : c = '\t'
  · subst h7; exact hletter 't' rfl (by decide) rfl
  by_cases h8 : c < ' '
  · have hwrite : Json.writeChar c = ['\\', 'u', '0', '0'] ++ Hex.ofByte c.toNat.toUInt8 := by
      simp only [Json.writeChar, h1, h2, h3, h4, h5, h6, h7, h8, ↓reduceIte]
    rw [hwrite]
    exact quotedFrom_escape ('0' :: '0' :: Hex.ofByte c.toNat.toUInt8) (by decide)
      (escape?_control h8 rest)
  · exact absurd (writeChar_eq_singleton_iff.2 ⟨Char.not_lt.1 h8, h1, h2⟩) hc

/-- A safe character `c` is read back from its written form.

**Proof sketch.** An escape gives the character (`quotedFrom_writeChar_of_ne`). Of the characters
that are written as they are the space widens the gap (`Gap.text_blank`), and any other ends it. -/
private lemma quotedFrom_writeChar {c : Char} (hc : IsSafe c) (hp : p.column ≠ 0)
    (hgap : gap.isBroken = false) (acc rest : List Char) :
    ∃ gap' acc', quotedFrom false (Json.writeChar c ++ rest) p 0 gap acc =
        quotedFrom false rest (p.advance (Json.writeChar c).length) 0 gap' acc' ∧
      gap'.isBroken = false ∧ acc'.reverse ++ gap'.text = acc.reverse ++ gap.text ++ [c] := by
  by_cases hwrite : Json.writeChar c = [c]
  · obtain ⟨hspace, hquote, hbackslash⟩ := writeChar_eq_singleton_iff.1 hwrite
    have hbreak := hc.not_isBreak hspace
    rw [hwrite, List.singleton_append, quotedFrom, if_neg (by simp [hp])]
    by_cases hblank : c = ' '
    · obtain ⟨htext, hbroken⟩ := Gap.text_blank hgap c
      refine ⟨gap.blank c, acc, ?_, hbroken, by rw [htext, List.append_assoc]⟩
      rw [if_pos (by simp [isBlank, hblank])]
      rfl
    · have htab : c ≠ '\t' := by
        rintro rfl
        exact absurd hspace (by decide)
      refine ⟨.none, c :: (gap.text.reverse ++ acc), ?_, rfl, by simp [Gap.text]⟩
      rw [if_neg (by simp [isBlank, htab, hblank]), if_neg (by simp [hbreak])]
      simp [hquote, hbackslash]
  · exact ⟨.none, c :: (gap.text.reverse ++ acc), quotedFrom_writeChar_of_ne hwrite acc rest, rfl,
      by simp [Gap.text]⟩

/-- The characters of the text `s` are read back, up to the closing quote.

**Proof sketch.** Induction on `s`, one character a step (`quotedFrom_writeChar`); at the quote the
`gap` before it belongs to the text. -/
private lemma quotedFrom_flatMap {s : List Char} (hs : ∀ c ∈ s, IsSafe c) (hp : p.column ≠ 0)
    (hgap : gap.isBroken = false) :
    quotedFrom false (s.flatMap Json.writeChar ++ '"' :: rest) p 0 gap acc =
      some ⟨acc.reverse ++ gap.text ++ s, p.advance ((s.flatMap Json.writeChar).length + 1),
        rest⟩ := by
  induction s generalizing p gap acc with
  | nil =>
    rw [List.flatMap_nil, List.nil_append, quotedFrom, if_neg (by simp [hp]), if_neg (by decide),
      if_neg (by decide)]
    simp
  | cons c s ih =>
    obtain ⟨gap', acc', hstep, hgap', htext⟩ :=
      quotedFrom_writeChar (hs c List.mem_cons_self) hp hgap acc
        (s.flatMap Json.writeChar ++ '"' :: rest)
    rw [List.flatMap_cons, List.append_assoc, hstep,
      ih (fun d hd => hs d (List.mem_cons_of_mem c hd)) (by simp [Position.advance, hp]) hgap',
      htext]
    simp [Position.advance, Nat.add_assoc]

end Quoted

/-- **Quoted text is read back.** From behind the opening quote of the written text `s` the reader
finds `s` and stops behind the closing quote, whatever `rest` is. This is `quotedFrom_flatMap` from
the opening quote on. -/
theorem readQuoted_writeString {s : String} (hs : SafeText s) {p : Position} (rest : List Char) :
    readQuoted false (s.toList.flatMap Json.writeChar ++ '"' :: rest) (p.advance 1) =
      some ⟨s.toList, p.advance (Json.writeString s).length, rest⟩ := by
  rw [readQuoted, quotedFrom_flatMap hs (by simp [Position.advance]) rfl]
  simp [Gap.text, Position.advance, Json.writeString, Nat.add_assoc, Nat.add_comm]

end FirmwareBundle.Yaml
