import FirmwareBundle.Yaml.Scalar
import FirmwareBundle.Yaml.ScalarText
import Mathlib.Algebra.Group.Nat.Defs
import Mathlib.Data.Nat.Init
import Mathlib.Tactic.Common
/-!
# Plain words read back

Numbers and truth values stand in a header without quotes. In a flow collection such a word is read
up to the mark behind it, whatever white space is between, and has the meaning that it was written
for.

## Main definitions

* `FirmwareBundle.Yaml.Spacing` — the white space between two tokens.
* `FirmwareBundle.Yaml.IsSolid` — the characters that white space ends at.
* `FirmwareBundle.Yaml.IsPlain` — the characters of plain words.

## Main results

* `FirmwareBundle.Yaml.readPlain_word` — a word is read up to the mark behind it.
* `FirmwareBundle.Yaml.Value.ofPlain?_toDigits` — the digits of a number mean the number.
-/

namespace FirmwareBundle

/-! ## Digits -/

namespace Digits

/-- The decimal digits of `n` spell it.

**Proof sketch.** Strong induction on `n`. The digit of `n % 10` stands behind those of `n / 10`,
which spell that number. -/
private lemma toNat?_toDigits (n : Nat) : toNat? 10 (Nat.toDigits 10 n) = some n := by
  have hdigit : ∀ d < 10, digit? 10 (Nat.digitChar d) = some d := by decide
  have hfold : (Nat.toDigits 10 n).foldlM (fun m c => (digit? 10 c).map (10 * m + ·)) 0 =
      some n := by
    induction n using Nat.strong_induction_on with
    | _ n ih =>
      rw [Nat.toDigits_eq_if (by decide)]
      split
      · rename_i hlt
        simp [hdigit n hlt]
      · rename_i hge
        rw [List.foldlM_append, ih (n / 10) (by omega)]
        simp only [Option.bind_eq_bind, Option.bind_some, List.foldlM_cons, List.foldlM_nil,
          hdigit (n % 10) (by omega), Option.map_some, Option.pure_def]
        congr 1
        omega
  rw [toNat?, if_neg (by simp), hfold]

/-- The decimal digits of `n` start with a zero only if they are that zero.

**Proof sketch.** Strong induction on `n`. If `n` has more than one digit, the first is that of
`n / 10`, which is not zero and so does not start with one. -/
lemma toDigits_eq_zero_cons {n : Nat} {rest : List Char} (h : Nat.toDigits 10 n = '0' :: rest) :
    rest = [] := by
  induction n using Nat.strong_induction_on generalizing rest with
  | _ n ih =>
    rw [Nat.toDigits_eq_if (by decide)] at h
    split at h
    · exact (List.cons.inj h).2.symm
    · rename_i hge
      cases hd : Nat.toDigits 10 (n / 10) with
      | nil => exact absurd hd Nat.toDigits_ne_nil
      | cons c ds =>
        rw [hd, List.cons_append] at h
        obtain ⟨rfl, -⟩ := List.cons.inj h
        -- A number below ten whose only digit is zero is zero.
        obtain rfl := ih (n / 10) (by omega) hd
        rw [Nat.toDigits_eq_if (by decide)] at hd
        split at hd
        · rename_i hlt
          have hzero : ∀ d < 10, Nat.digitChar d = '0' → d = 0 := by decide
          have := hzero _ hlt (List.cons.inj hd).1
          omega
        · have hlen := congrArg List.length hd
          have := Nat.length_toDigits_pos (b := 10) (n := n / 10 / 10)
          simp only [List.length_append, List.length_singleton] at hlen
          omega

end Digits

namespace Yaml

/-! ## Plain words -/

/-- The white space `w` between two tokens: blanks, perhaps on a line of their own. -/
def Spacing (w : List Char) : Prop :=
  ∃ n, w = List.replicate n ' ' ∨ w = '\n' :: List.replicate n ' '

/-- The character `c` is none that white space is made of or that a comment starts with. -/
def IsSolid (c : Char) : Prop :=
  isBlank c = false ∧ isBreak c = false ∧ c ≠ '#'

instance : DecidablePred IsSolid := fun c => by
  unfold IsSolid
  infer_instance

/-- The marks of flow collections are no white space. -/
lemma isSolid_of_isFlowMark {c : Char} (hc : isFlowMark c) : IsSolid c := by
  simp only [isFlowMark, Bool.or_eq_true, beq_iff_eq] at hc
  rcases hc with (((rfl | rfl) | rfl) | rfl) | rfl <;> decide

/-- The character `c` is one of plain words: no white space, no mark of a flow collection and no
colon. -/
def IsPlain (c : Char) : Prop :=
  isBlank c = false ∧ isBreak c = false ∧ isFlowMark c = false ∧ c ≠ ':'

instance : DecidablePred IsPlain := fun c => by
  unfold IsPlain
  infer_instance

/-- A digit is a character of plain words. -/
lemma isPlain_of_isDigit {c : Char} (h : c.isDigit) : IsPlain c := by
  rw [Char.isDigit_iff_toNat] at h
  simp only [IsPlain, isBlank, isBreak, isFlowMark, lineSeparator, paragraphSeparator,
    Bool.or_eq_false_iff, beq_eq_false_iff_ne]
  and_intros <;> rintro rfl <;> exact absurd h (by decide)

section Plain

variable {indent : Nat}

/-- The mark `c` of a flow collection ends a plain scalar, whatever `gap` is before it. -/
private lemma plainFrom_mark {c : Char} (hc : isFlowMark c) (p : Position) (gap : Gap)
    (acc rest : List Char) :
    plainFrom true indent (c :: rest) p gap acc =
      some ⟨(acc.reverse, gap.isBroken), p, c :: rest⟩ := by
  simp only [isFlowMark, Bool.or_eq_true, beq_iff_eq] at hc
  rcases hc with (((rfl | rfl) | rfl) | rfl) | rfl <;>
    cases rest <;> simp [plainFrom, isBlank, isBreak, isFlowMark, lineSeparator,
      paragraphSeparator, atDocumentMark, startsDocumentMark]

/-- The white space `w` between a plain scalar and the mark `c` is passed over. -/
private lemma plainFrom_spacing {w : List Char} (hw : Spacing w) {c : Char} (hc : isFlowMark c)
    (p : Position) (acc rest : List Char) :
    ∃ broken p', plainFrom true indent (w ++ c :: rest) p .none acc =
      some ⟨(acc.reverse, broken), p', c :: rest⟩ := by
  have hspaces : ∀ (n : Nat) (p : Position) (gap : Gap),
      ∃ broken p', plainFrom true indent (List.replicate n ' ' ++ c :: rest) p gap acc =
        some ⟨(acc.reverse, broken), p', c :: rest⟩ := by
    intro n
    induction n with
    | zero => exact fun p gap => ⟨_, _, plainFrom_mark hc p gap acc rest⟩
    | succ n ih =>
      intro p gap
      rw [List.replicate_succ, List.cons_append, plainFrom, if_pos (by decide), if_neg (by simp)]
      exact ih (p.advance 1) (gap.blank ' ')
  obtain ⟨n, rfl | rfl⟩ := hw
  · exact hspaces n p .none
  · rw [List.cons_append, plainFrom, if_neg (by decide), if_pos (by decide)]
    exact hspaces n p.newline _

/-- The characters of `word` are taken one by one. -/
private lemma plainFrom_word {word : List Char} (hword : ∀ c ∈ word, IsPlain c) (p : Position)
    (acc rest : List Char) :
    plainFrom true indent (word ++ rest) p .none acc =
      plainFrom true indent rest (p.advance word.length) .none (word.reverse ++ acc) := by
  induction word generalizing p acc with
  | nil => rfl
  | cons c word ih =>
    obtain ⟨hblank, hbreak, hmark, hcolon⟩ := hword c List.mem_cons_self
    rw [List.cons_append, plainFrom, if_neg (by simp [hblank]), if_neg (by simp [hbreak]),
      if_neg (by simp), if_neg (by simp [hcolon]), if_neg (by simp [hcolon, hmark]),
      ih (fun d hd => hword d (List.mem_cons_of_mem c hd))]
    simp [Position.advance, Gap.text, Nat.add_comm, Nat.add_left_comm]

variable (indent) in
/-- **A word is read up to the mark behind it.** The white space `w` between `word` and the mark `c`
is passed over too. First the characters of the word are taken (`plainFrom_word`), then the white
space is (`plainFrom_spacing`). -/
theorem readPlain_word {word w : List Char} (hword : ∀ c ∈ word, IsPlain c) (hw : Spacing w)
    {c : Char} (hc : isFlowMark c) (p : Position) (rest : List Char) :
    ∃ broken p', readPlain true indent (word ++ w ++ c :: rest) p =
      some ⟨(word, broken), p', c :: rest⟩ := by
  obtain ⟨broken, p', h⟩ := plainFrom_spacing hw hc (p.advance word.length) word.reverse rest
  refine ⟨broken, p', ?_⟩
  rw [readPlain, List.append_assoc, plainFrom_word hword, List.append_nil, h, List.reverse_reverse]

end Plain

/-! ## Meanings -/

section Digits

variable {n : Nat}

/-- The digits of `n` start with a digit. -/
lemma exists_toDigits_eq_cons (n : Nat) : ∃ c ds, Nat.toDigits 10 n = c :: ds ∧ c.isDigit := by
  obtain ⟨c, ds, hd⟩ := List.exists_cons_of_ne_nil (Nat.toDigits_ne_nil (n := n) (b := 10))
  exact ⟨c, ds, hd, Nat.isDigit_of_mem_toDigits (by decide) (by decide) (hd ▸ List.mem_cons_self)⟩

/-- The digits of `n` are no padded number: if the first is a zero, there are no others
(`toDigits_eq_zero_cons`). -/
private lemma isZeroPadded_toDigits (n : Nat) : isZeroPadded (Nat.toDigits 10 n) = false := by
  obtain ⟨c, ds, hd, hdigit⟩ := exists_toDigits_eq_cons n
  by_cases hzero : c = '0'
  · subst hzero
    rw [hd, Digits.toDigits_eq_zero_cons hd]
    rfl
  · have hminus : c ≠ '-' := by rintro rfl; revert hdigit; decide
    have hplus : c ≠ '+' := by rintro rfl; revert hdigit; decide
    simp [hd, isZeroPadded, hzero, hminus, hplus]

/-- The digits of `n` spell it without the mark of a base, which would stand behind a zero. -/
private lemma natural?_toDigits (n : Nat) : natural? (Nat.toDigits 10 n) = some n := by
  -- Behind a zero in front there is nothing, so none of the three marks.
  have hmark : ∀ x rest, Nat.toDigits 10 n ≠ '0' :: x :: rest := by
    intro x rest hd
    exact absurd (Digits.toDigits_eq_zero_cons hd) (by simp)
  unfold natural?
  split
  · exact absurd ‹_› (hmark _ _)
  · exact absurd ‹_› (hmark _ _)
  · exact absurd ‹_› (hmark _ _)
  · exact Digits.toNat?_toDigits n

/-- The digits of `n` spell it: there is no sign before them, and they are not padded. -/
private lemma integer?_toDigits (n : Nat) : integer? (Nat.toDigits 10 n) = some (n : Int) := by
  obtain ⟨c, ds, hd, hdigit⟩ := exists_toDigits_eq_cons n
  have hminus : c ≠ '-' := by rintro rfl; revert hdigit; decide
  have hplus : c ≠ '+' := by rintro rfl; revert hdigit; decide
  have hpadded := isZeroPadded_toDigits n
  have hnatural := natural?_toDigits n
  rw [hd] at hpadded hnatural ⊢
  simp [integer?, hpadded, hminus, hplus, hnatural]

/-- **The digits of a number mean the number** `n`, if it fits into 64 bits.

**Proof sketch.** They start with a digit (`exists_toDigits_eq_cons`), so they are no word with a
meaning of its own, and as an integer they are `n` (`integer?_toDigits`). -/
theorem Value.ofPlain?_toDigits (hn : n < 2 ^ 64) :
    Value.ofPlain? (String.ofList (Nat.toDigits 10 n)) = some (.integer n) := by
  obtain ⟨c, ds, hd, hdigit⟩ := exists_toDigits_eq_cons n
  -- No text that starts otherwise is made of the digits.
  have hne : ∀ t : String, t.toList.head?.any Char.isDigit = false →
      String.ofList (Nat.toDigits 10 n) ≠ t := by
    rintro t ht rfl
    simp [hd, hdigit] at ht
  have hnull : ¬(String.ofList (Nat.toDigits 10 n) = "" ∨
      isNull (String.ofList (Nat.toDigits 10 n))) := by
    simp [isNull, hne "" (by decide), hne "null" (by decide), hne "Null" (by decide),
      hne "NULL" (by decide), hne "~" (by decide)]
  have hboolean : boolean? (String.ofList (Nat.toDigits 10 n)) = none := by
    simp [boolean?, hne "true" (by decide), hne "True" (by decide), hne "TRUE" (by decide),
      hne "false" (by decide), hne "False" (by decide), hne "FALSE" (by decide)]
  have hnarrow : isNarrow n := by
    simp only [isNarrow, Bool.and_eq_true, decide_eq_true_eq]
    omega
  rw [ofPlain?, if_neg hnull, hboolean, String.toList_ofList, integer?_toDigits]
  simp [hnarrow]

end Digits

end Yaml

end FirmwareBundle
