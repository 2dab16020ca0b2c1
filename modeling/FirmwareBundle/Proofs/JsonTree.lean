import FirmwareBundle.Json
import FirmwareBundle.Yaml.Node
import FirmwareBundle.Yaml.Value
import FirmwareBundle.Proofs.PlainText
import FirmwareBundle.Proofs.QuotedText
/-!
# The values of headers as documents

What each layer of the reader of documents makes of the text of a value: its tokens, the node that
they spell, and what the node means. Also which values have a text that is a document, and of which
characters it is made.

## Main definitions

* `FirmwareBundle.Json.Shaped` — the values whose text is a document, by the depth of their
  collections.
* `FirmwareBundle.Json.tokens` — the tokens of the text of a value.
* `FirmwareBundle.Json.node` — the node of the tokens.
* `FirmwareBundle.Json.toYaml` — the meaning of the node.
* `FirmwareBundle.Json.texts` — the texts in a value.
* `FirmwareBundle.Json.IsForbidden` — the characters that are written, but not read.

## Main results

* `FirmwareBundle.Json.isMark_or_exists_of_mem_write` — of which characters the text is made.
* `FirmwareBundle.Json.all_isAllowed_write_iff` — whether it may stand in a stream.
-/

namespace FirmwareBundle.Json

open Yaml

/-! ## Values whose text is a document -/

/-- The text `key` is one that is read back as a key: it is safe, and short enough to be taken for
one. -/
def IsKey (key : String) : Prop :=
  SafeText key ∧ (writeString key).length ≤ 1024

instance : DecidablePred IsKey := fun key => by
  unfold IsKey
  infer_instance

/-- The values whose text is read as a document whatever their texts are, with collections nested
at most `depth` deep: numbers fit into 64 bits, and the keys of an object are safe, short and
distinct. -/
inductive Shaped : (depth : Nat) → Json → Prop
  | boolean {depth : Nat} (value : Bool) : Shaped depth (.boolean value)
  | number {depth n : Nat} (fits : n < 2 ^ 64) : Shaped depth (.number n)
  | string {depth : Nat} (text : String) : Shaped depth (.string text)
  | array {depth : Nat} {items : List Json} (shaped : ∀ item ∈ items, Shaped depth item) :
    Shaped (depth + 1) (.array items)
  | object {depth : Nat} {fields : List (String × Json)}
    (keys : ∀ field ∈ fields, IsKey field.1) (distinct : (fields.map (·.1)).Nodup)
    (shaped : ∀ field ∈ fields, Shaped depth field.2) : Shaped (depth + 1) (.object fields)

/-- The keys of such an object, those of `fields`, are read back. -/
lemma Shaped.isKey {depth : Nat} {fields : List (String × Json)}
    (h : Shaped depth (.object fields)) {field : String × Json} (hfield : field ∈ fields) :
    IsKey field.1 := by
  cases h with
  | object keys distinct shaped => exact keys field hfield

/-- The keys of such an object, those of `fields`, are distinct. -/
lemma Shaped.distinct {depth : Nat} {fields : List (String × Json)}
    (h : Shaped depth (.object fields)) : (fields.map (·.1)).Nodup := by
  cases h with
  | object keys distinct shaped => exact distinct

/-! ## Tokens, nodes and meanings -/

mutual

/-- The tokens of the text of a value. -/
def tokens : Json → List Token
  | .boolean true => [.scalar "true" true]
  | .boolean false => [.scalar "false" true]
  | .number n => [.scalar (String.ofList (Nat.toDigits 10 n)) true]
  | .string text => [.scalar text false]
  | .array [] => [.flowSequenceStart, .flowSequenceEnd]
  | .array (item :: items) =>
    .flowSequenceStart :: (tokens item ++ tokensOfItems items ++ [.flowSequenceEnd])
  | .object [] => [.flowMappingStart, .flowMappingEnd]
  | .object ((key, value) :: fields) =>
    .flowMappingStart :: .key :: .scalar key false :: .value ::
      (tokens value ++ tokensOfFields fields ++ [.flowMappingEnd])

/-- The tokens of the items after the first. -/
def tokensOfItems : List Json → List Token
  | [] => []
  | item :: items => .flowEntry :: (tokens item ++ tokensOfItems items)

/-- The tokens of the fields after the first. -/
def tokensOfFields : List (String × Json) → List Token
  | [] => []
  | (key, value) :: fields =>
    .flowEntry :: .key :: .scalar key false :: .value :: (tokens value ++ tokensOfFields fields)

end

mutual

/-- The node of the tokens, without anchors and tags. -/
def node {α : Type} : Json → Node α
  | .boolean true => .scalar none none "true" true
  | .boolean false => .scalar none none "false" true
  | .number n => .scalar none none (String.ofList (Nat.toDigits 10 n)) true
  | .string text => .scalar none none text false
  | .array items => .sequence none none (nodesOfItems items)
  | .object fields => .mapping none none (nodesOfFields fields)

/-- The nodes of items. -/
def nodesOfItems {α : Type} : List Json → List (Node α)
  | [] => []
  | item :: items => node item :: nodesOfItems items

/-- The nodes of keys and values. -/
def nodesOfFields {α : Type} : List (String × Json) → List (Node α × Node α)
  | [] => []
  | (key, value) :: fields => (.scalar none none key false, node value) :: nodesOfFields fields

end

mutual

/-- The meaning of the node. -/
def toYaml : Json → Value
  | .boolean value => .boolean value
  | .number n => .integer n
  | .string text => .string text
  | .array items => .sequence (itemsToYaml items)
  | .object fields => .mapping (fieldsToYaml fields)

/-- The meanings of items. -/
def itemsToYaml : List Json → List Value
  | [] => []
  | item :: items => toYaml item :: itemsToYaml items

/-- The meanings of keys and values. -/
def fieldsToYaml : List (String × Json) → List (Value × Value)
  | [] => []
  | (key, value) :: fields => (.string key, toYaml value) :: fieldsToYaml fields

end

mutual

/-- The texts in a value, its keys among them. -/
def texts : Json → List String
  | .boolean _ => []
  | .number _ => []
  | .string text => [text]
  | .array items => textsOfItems items
  | .object fields => textsOfFields fields

/-- The texts in items. -/
def textsOfItems : List Json → List String
  | [] => []
  | item :: items => texts item ++ textsOfItems items

/-- The texts in keys and values. -/
def textsOfFields : List (String × Json) → List String
  | [] => []
  | (key, value) :: fields => key :: (texts value ++ textsOfFields fields)

end

/-- A `text` is one of those in `items` if it is one of those in some item. -/
lemma mem_textsOfItems {text : String} {items : List Json} :
    text ∈ textsOfItems items ↔ ∃ item ∈ items, text ∈ item.texts := by
  induction items with
  | nil => simp [textsOfItems]
  | cons item items ih => simp [textsOfItems, ih]

/-- A `text` is one of those in keys and values if it is a key or one of those in some value. -/
lemma mem_textsOfFields {text : String} {fields : List (String × Json)} :
    text ∈ textsOfFields fields ↔ ∃ field ∈ fields, text = field.1 ∨ text ∈ field.2.texts := by
  induction fields with
  | nil => simp [textsOfFields]
  | cons field fields ih => simp [textsOfFields, ih, or_assoc]

/-! ## Characters of texts -/

/-- What stands before an item in a `layout` is white space between two tokens. -/
lemma spacing_lineBreak (layout : Layout) (depth : Nat) : Spacing (layout.lineBreak depth) := by
  cases layout with
  | compact => exact ⟨0, .inl rfl⟩
  | indented => exact ⟨2 * depth, .inr rfl⟩

/-- In a `layout` a colon stands right behind its key, with white space `w` after it. -/
lemma exists_colon_eq (layout : Layout) : ∃ w, layout.colon = ':' :: w ∧ Spacing w := by
  cases layout with
  | compact => exact ⟨[], rfl, 0, .inl rfl⟩
  | indented => exact ⟨[' '], rfl, 1, .inl rfl⟩

/-- The character `c` is one that a value is written with beside those of its texts: one of ASCII
from the space on, or the line feed. -/
def IsMark (c : Char) : Prop :=
  c = '\n' ∨ (' ' ≤ c ∧ c ≤ '~')

instance : DecidablePred IsMark := fun c => by
  unfold IsMark
  infer_instance

/-- White space `w` is made of marks. -/
private lemma isMark_of_mem_spacing {w : List Char} (hw : Spacing w) {x : Char} (hx : x ∈ w) :
    IsMark x := by
  obtain ⟨n, rfl | rfl⟩ := hw
  · rw [List.eq_of_mem_replicate hx]
    decide
  · rcases List.mem_cons.1 hx with rfl | hx
    · decide
    · rw [List.eq_of_mem_replicate hx]
      decide

/-- A digit `c` is a mark. -/
lemma isMark_of_isDigit {c : Char} (h : c.isDigit) : IsMark c := by
  have hn : 0x30 ≤ c.toNat ∧ c.toNat ≤ 0x39 := Char.isDigit_iff_toNat.1 h
  refine .inr ⟨?_, ?_⟩
  · show 0x20 ≤ c.toNat
    omega
  · show c.toNat ≤ 0x7e
    omega

/-- An escape, that of a character `c`, is made of marks. -/
lemma isMark_of_mem_writeChar {c x : Char} (hwrite : writeChar c ≠ [c]) (hx : x ∈ writeChar c) :
    IsMark x := by
  have hdigit : ∀ d < 16, IsMark (Nat.digitChar d) := by decide
  unfold writeChar at hx
  split_ifs at hx with h1 h2 h3 h4 h5 h6 h7 h8
  -- Seven escapes of one letter come first.
  iterate 7
    · simp only [List.mem_cons, List.not_mem_nil, or_false] at hx
      rcases hx with rfl | rfl <;> decide
  · have hn : c.toNat < 0x20 := h8
    simp only [Hex.ofByte, List.cons_append, List.nil_append, List.mem_cons, List.not_mem_nil,
      or_false] at hx
    rcases hx with rfl | rfl | rfl | rfl | rfl | rfl
    iterate 4 decide
    · exact hdigit _ (by rw [Nat.toUInt8, UInt8.toNat_ofNat']; omega)
    · exact hdigit _ (by omega)
  · exact absurd (writeChar_eq_singleton_iff.2 ⟨Char.not_lt.1 h8, h1, h2⟩) hwrite

/-- A text `s` is written with marks and with its own characters from the space on. A character of
`s` is written as it is (`writeChar_eq_singleton_iff`) or as an escape
(`isMark_of_mem_writeChar`). -/
lemma isMark_or_mem_of_mem_writeString {s : String} {x : Char} (hx : x ∈ writeString s) :
    IsMark x ∨ (x ∈ s.toList ∧ ' ' ≤ x) := by
  simp only [writeString, List.cons_append, List.mem_cons, List.mem_append, List.mem_flatMap,
    List.not_mem_nil, or_false] at hx
  rcases hx with rfl | ⟨c, hc, hx⟩ | rfl
  · exact .inl (by decide)
  · by_cases hwrite : writeChar c = [c]
    · rw [hwrite, List.mem_singleton] at hx
      rw [hx]
      exact .inr ⟨hc, (writeChar_eq_singleton_iff.1 hwrite).1⟩
    · exact .inl (isMark_of_mem_writeChar hwrite hx)
  · exact .inl (by decide)

/-- A character `c` of `s` that is not escaped stands in the text that `s` is written in. -/
private lemma mem_writeString_of_mem {s : String} {c : Char} (hc : c ∈ s.toList)
    (hwrite : writeChar c = [c]) : c ∈ writeString s := by
  simp only [writeString, List.cons_append, List.mem_cons, List.mem_append, List.mem_flatMap]
  exact .inr (.inl ⟨c, hc, hwrite ▸ List.mem_singleton_self c⟩)

section Write

variable {layout : Layout} {x : Char}

/-- What stands before an item is made of marks. -/
lemma isMark_of_mem_lineBreak {level : Nat} (hx : x ∈ layout.lineBreak level) : IsMark x :=
  isMark_of_mem_spacing (spacing_lineBreak layout level) hx

/-- What stands behind a key is made of marks. -/
lemma isMark_of_mem_colon (hx : x ∈ layout.colon) : IsMark x := by
  obtain ⟨w, hw, hspacing⟩ := exists_colon_eq layout
  rw [hw, List.mem_cons] at hx
  rcases hx with rfl | hx
  · decide
  · exact isMark_of_mem_spacing hspacing hx

mutual

/-- **The text of a value is made of its texts and of marks**: a character `x` of it is a mark, or
stands in the written form of one of `value.texts`.

**Proof sketch.** Induction on the value, with one case for each part of a collection: its marks and
line breaks, its first item or field, and the others. -/
theorem isMark_or_exists_of_mem_write {level : Nat} : (value : Json) →
    x ∈ write layout level value → IsMark x ∨ ∃ text ∈ value.texts, x ∈ writeString text
  | .boolean true, hx =>
    .inl (forall_mem_of_all (by decide : "true".toList.all fun c => IsMark c) x hx)
  | .boolean false, hx =>
    .inl (forall_mem_of_all (by decide : "false".toList.all fun c => IsMark c) x hx)
  | .number n, hx =>
    .inl (isMark_of_isDigit (Nat.isDigit_of_mem_toDigits (by decide) (by decide) hx))
  | .string text, hx => .inr ⟨text, List.mem_singleton_self text, hx⟩
  | .array [], hx =>
    .inl (forall_mem_of_all (by decide : ['[', ']'].all fun c => IsMark c) x hx)
  | .array (item :: items), hx => by
    simp only [write, List.cons_append, List.mem_cons, List.mem_append, List.not_mem_nil,
      or_false] at hx
    simp only [texts, textsOfItems, List.mem_append, or_and_right, exists_or]
    rcases hx with rfl | (((hx | hx) | hx) | hx) | rfl
    · exact .inl (by decide)
    · exact .inl (isMark_of_mem_lineBreak hx)
    · exact (isMark_or_exists_of_mem_write item hx).imp_right .inl
    · exact (isMark_or_exists_of_mem_writeItems items hx).imp_right .inr
    · exact .inl (isMark_of_mem_lineBreak hx)
    · exact .inl (by decide)
  | .object [], hx =>
    .inl (forall_mem_of_all (by decide : ['{', '}'].all fun c => IsMark c) x hx)
  | .object ((key, value) :: fields), hx => by
    simp only [write, List.cons_append, List.mem_cons, List.mem_append, List.not_mem_nil,
      or_false] at hx
    simp only [texts, textsOfFields, List.mem_cons, List.mem_append, or_and_right, exists_or,
      exists_eq_left]
    rcases hx with rfl | (((((hx | hx) | hx) | hx) | hx) | hx) | rfl
    · exact .inl (by decide)
    · exact .inl (isMark_of_mem_lineBreak hx)
    · exact .inr (.inl hx)
    · exact .inl (isMark_of_mem_colon hx)
    · exact (isMark_or_exists_of_mem_write value hx).imp_right fun h => .inr (.inl h)
    · exact (isMark_or_exists_of_mem_writeFields fields hx).imp_right fun h => .inr (.inr h)
    · exact .inl (isMark_of_mem_lineBreak hx)
    · exact .inl (by decide)

/-- The items after the first are made of their texts and of marks. -/
private lemma isMark_or_exists_of_mem_writeItems {level : Nat} : (items : List Json) →
    x ∈ writeItems layout level items →
    IsMark x ∨ ∃ text ∈ textsOfItems items, x ∈ writeString text
  | [], hx => by cases hx
  | item :: items, hx => by
    simp only [writeItems, List.cons_append, List.mem_cons, List.mem_append] at hx
    simp only [textsOfItems, List.mem_append, or_and_right, exists_or]
    rcases hx with rfl | (hx | hx) | hx
    · exact .inl (by decide)
    · exact .inl (isMark_of_mem_lineBreak hx)
    · exact (isMark_or_exists_of_mem_write item hx).imp_right .inl
    · exact (isMark_or_exists_of_mem_writeItems items hx).imp_right .inr

/-- The fields after the first are made of their texts and of marks. -/
private lemma isMark_or_exists_of_mem_writeFields {level : Nat} : (fields : List (String × Json)) →
    x ∈ writeFields layout level fields →
    IsMark x ∨ ∃ text ∈ textsOfFields fields, x ∈ writeString text
  | [], hx => by cases hx
  | (key, value) :: fields, hx => by
    simp only [writeFields, List.cons_append, List.mem_cons, List.mem_append] at hx
    simp only [textsOfFields, List.mem_cons, List.mem_append, or_and_right, exists_or,
      exists_eq_left]
    rcases hx with rfl | (((hx | hx) | hx) | hx) | hx
    · exact .inl (by decide)
    · exact .inl (isMark_of_mem_lineBreak hx)
    · exact .inr (.inl hx)
    · exact .inl (isMark_of_mem_colon hx)
    · exact (isMark_or_exists_of_mem_write value hx).imp_right fun h => .inr (.inl h)
    · exact (isMark_or_exists_of_mem_writeFields fields hx).imp_right fun h => .inr (.inr h)

end

mutual

/-- The characters of its texts, as they are written, stand in the text of a value. -/
private lemma mem_write_of_mem_writeString {level : Nat} {text : String}
    (hx : x ∈ writeString text) :
    (value : Json) → text ∈ value.texts → x ∈ write layout level value
  | .string _, htext => List.mem_singleton.1 htext ▸ hx
  | .array (item :: items), htext => by
    simp only [texts, textsOfItems, List.mem_append] at htext
    simp only [write, List.cons_append, List.mem_cons, List.mem_append]
    rcases htext with htext | htext
    · have h : x ∈ write layout (level + 1) item := mem_write_of_mem_writeString hx item htext
      simp only [h, true_or, or_true]
    · have h : x ∈ writeItems layout (level + 1) items :=
        mem_writeItems_of_mem_writeString hx items htext
      simp only [h, true_or, or_true]
  | .object ((key, value) :: fields), htext => by
    simp only [texts, textsOfFields, List.mem_cons, List.mem_append] at htext
    simp only [write, List.cons_append, List.mem_cons, List.mem_append]
    rcases htext with rfl | htext | htext
    · simp only [hx, true_or, or_true]
    · have h : x ∈ write layout (level + 1) value := mem_write_of_mem_writeString hx value htext
      simp only [h, true_or, or_true]
    · have h : x ∈ writeFields layout (level + 1) fields :=
        mem_writeFields_of_mem_writeString hx fields htext
      simp only [h, true_or, or_true]

/-- The characters of their texts stand in the text of items. -/
private lemma mem_writeItems_of_mem_writeString {level : Nat} {text : String}
    (hx : x ∈ writeString text) :
    (items : List Json) → text ∈ textsOfItems items → x ∈ writeItems layout level items
  | item :: items, htext => by
    simp only [textsOfItems, List.mem_append] at htext
    simp only [writeItems, List.cons_append, List.mem_cons, List.mem_append]
    rcases htext with htext | htext
    · exact .inr (.inl (.inr (mem_write_of_mem_writeString hx item htext)))
    · exact .inr (.inr (mem_writeItems_of_mem_writeString hx items htext))

/-- The characters of their texts stand in the text of fields. -/
private lemma mem_writeFields_of_mem_writeString {level : Nat} {text : String}
    (hx : x ∈ writeString text) :
    (fields : List (String × Json)) → text ∈ textsOfFields fields →
    x ∈ writeFields layout level fields
  | (key, value) :: fields, htext => by
    simp only [textsOfFields, List.mem_cons, List.mem_append] at htext
    simp only [writeFields, List.cons_append, List.mem_cons, List.mem_append]
    rcases htext with rfl | htext | htext
    · exact .inr (.inl (.inl (.inl (.inr hx))))
    · exact .inr (.inl (.inr (mem_write_of_mem_writeString hx value htext)))
    · exact .inr (.inr (mem_writeFields_of_mem_writeString hx fields htext))

end

/-- The text of `value` has no carriage return, since in its texts that is escaped and no mark is
one. -/
lemma return_notMem_write (level : Nat) (value : Json) : '\r' ∉ write layout level value := by
  intro hx
  rcases isMark_or_exists_of_mem_write value hx with hmark | ⟨text, -, hx⟩
  · exact absurd hmark (by decide)
  · rcases isMark_or_mem_of_mem_writeString hx with hmark | ⟨-, hspace⟩
    · exact absurd hmark (by decide)
    · exact absurd hspace (by decide)

/-! ## Forbidden characters -/

/-- The character `c` is written as it is, but no stream may hold it: the delete character, the
controls above it but the next line character, and two noncharacters. -/
def IsForbidden (c : Char) : Prop :=
  (0x7f ≤ c.toNat ∧ c.toNat ≤ 0x9f ∧ c.toNat ≠ 0x85) ∨ c.toNat = 0xfffe ∨ c.toNat = 0xffff

instance : DecidablePred IsForbidden := fun c => by
  unfold IsForbidden
  infer_instance

/-- From the space on the forbidden characters are those that no stream may hold
(`Yaml.isAllowed`). -/
lemma isForbidden_iff {c : Char} : IsForbidden c ↔ ' ' ≤ c ∧ isAllowed c = false := by
  have hspace : ' ' ≤ c ↔ 0x20 ≤ c.toNat := Iff.rfl
  have hvalid : c.toNat < 0xd800 ∨ 0xdfff < c.toNat := by
    rcases c.valid with h | ⟨h, -⟩
    · exact .inl h
    · exact .inr h
  rw [hspace, IsForbidden, ← Bool.not_eq_true]
  simp only [isAllowed, Bool.or_eq_true, beq_iff_eq, Bool.and_eq_true, decide_eq_true_eq]
  omega

/-- A forbidden character `c` is not escaped. -/
lemma IsForbidden.writeChar_eq {c : Char} (h : IsForbidden c) : writeChar c = [c] := by
  refine writeChar_eq_singleton_iff.2 ⟨(isForbidden_iff.1 h).1, ?_, ?_⟩ <;>
    rintro rfl <;> exact absurd h (by decide)

/-- A mark `c` may stand in a stream. -/
lemma IsMark.isAllowed {c : Char} (h : IsMark c) : isAllowed c = true := by
  rcases h with rfl | ⟨hfrom, hto⟩
  · decide
  · have hn : 0x20 ≤ c.toNat ∧ c.toNat ≤ 0x7e := ⟨hfrom, hto⟩
    simp [Yaml.isAllowed, hn]

/-- **The text of a value may stand in a stream** if and only if none of its texts has a forbidden
character.

**Proof sketch.** A forbidden character of a text is not escaped, so it stands in the text of
`value` (`mem_write_of_mem_writeString`). Conversely a character of that text is a mark, or comes
from one of the texts and is at least a space (`isMark_or_exists_of_mem_write`,
`isMark_or_mem_of_mem_writeString`), and then it may stand there unless it is forbidden
(`isForbidden_iff`). -/
theorem all_isAllowed_write_iff {level : Nat} {value : Json} :
    (write layout level value).all isAllowed = true ↔
      ∀ text ∈ value.texts, ∀ c ∈ text.toList, ¬IsForbidden c := by
  rw [List.all_eq_true]
  constructor
  · intro hall text htext c hc hforbidden
    have hmem : c ∈ write layout level value := mem_write_of_mem_writeString
      (mem_writeString_of_mem hc hforbidden.writeChar_eq) value htext
    have hallowed := hall c hmem
    rw [(isForbidden_iff.1 hforbidden).2] at hallowed
    cases hallowed
  · intro hnone c hc
    rcases isMark_or_exists_of_mem_write value hc with hmark | ⟨text, htext, hc⟩
    · exact hmark.isAllowed
    rcases isMark_or_mem_of_mem_writeString hc with hmark | ⟨hmem, hspace⟩
    · exact hmark.isAllowed
    · by_contra hrefused
      exact hnone text htext c hmem (isForbidden_iff.2 ⟨hspace, Bool.not_eq_true _ ▸ hrefused⟩)

/-- A safe character `c` is not forbidden. -/
lemma not_isForbidden_of_isSafe {c : Char} (hc : IsSafe c) : ¬IsForbidden c := by
  unfold IsSafe at hc
  unfold IsForbidden
  omega

end Write

end FirmwareBundle.Json
