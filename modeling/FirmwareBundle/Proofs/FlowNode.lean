import FirmwareBundle.Yaml.Document
import FirmwareBundle.Proofs.FlowText
/-!
# The value that the tokens of a value spell

The tokens of a value spell its node, whatever tokens follow; a node without anchors, aliases and
tags keeps its shape when names are numbered, and its scalars mean what was written.

## Main definitions

* `FirmwareBundle.Yaml.startsNode` — whether a node stands at the start of the tokens.
* `FirmwareBundle.Yaml.Spells` — the tokens of a value are read as its node.

## Main results

* `FirmwareBundle.Yaml.document?_tokens` — the tokens of a value are a document of its node.
* `FirmwareBundle.Yaml.Node.number?_node` — the node has no names to be numbered.
* `FirmwareBundle.Yaml.Value.ofNode?_node` — the node means the value.
* `FirmwareBundle.Yaml.Value.ofText?_write` — the encoded text of an object means the object with
  its texts folded.
* `FirmwareBundle.Yaml.Value.ofText?_write_of_forbidden` — with a forbidden character it means
  nothing.
-/

namespace FirmwareBundle.Yaml

/-! ## Single nodes -/

/-- Whether the first token is one that a scalar or a flow collection starts with. -/
def startsNode : List Token → Bool
  | .scalar .. :: _ | .flowSequenceStart :: _ | .flowMappingStart :: _ => true
  | _ => false

/-- The tokens of `value` start with such a token, whatever `rest` is. -/
private lemma startsNode_tokens (value : Json) (rest : List Token) :
    startsNode (value.tokens ++ rest) := by
  cases value with
  | boolean value => cases value <;> rfl
  | number n => rfl
  | string text => rfl
  | array items => cases items <;> rfl
  | object fields => cases fields <;> rfl

section Reading

variable (known : TagShorthands) (fuel : Nat) {tokens : List Token}

/-- The `value` has at least one token. -/
private lemma tokens_length_pos (value : Json) : 0 < value.tokens.length := by
  have h := startsNode_tokens value []
  rw [List.append_nil] at h
  exact List.length_pos_iff.2 fun hnil => by rw [hnil] at h; cases h

/-- A node without properties is its content. -/
private lemma node?_of_startsNode (block hanging : Bool) (h : startsNode tokens) :
    node? known block hanging (fuel + 1) tokens =
      content? known block hanging none none fuel tokens := by
  unfold startsNode at h
  split at h <;> first | rfl | cases h

/-- The value of an entry is read, by `read`, where a node stands. -/
private lemma entryValue?_of_startsNode (read : Reader (Node String)) (h : startsNode tokens) :
    entryValue? stopsFlowValue read (.value :: tokens) = read tokens := by
  unfold startsNode at h
  split at h <;> first | rfl | cases h

/-- The comma before every part of a collection but the `first`. -/
def comma (first : Bool) : List Token :=
  if first then [] else [.flowEntry]

/-- An item of a sequence is read behind its comma, if it has one, and then the others are, with
less fuel. -/
private lemma flowItems?_of_startsNode (first : Bool) (h : startsNode tokens) :
    flowItems? known first (fuel + 1) (comma first ++ tokens) =
      (node? known false false fuel tokens).bind fun r =>
        (flowItems? known false fuel r.2).bind fun s => some (r.1 :: s.1, s.2) := by
  unfold startsNode at h
  split at h
  case h_4 => cases h
  all_goals
    cases first <;> simp [flowItems?, comma, afterComma?]

/-- An entry of a mapping, `key` and its value, is read behind its comma, if it has one, and then
the others are. -/
private lemma flowEntries?_key (first : Bool) (key : String) (h : startsNode tokens) :
    flowEntries? known first (fuel + 3) (comma first ++
        (.key :: .scalar key false :: .value :: tokens)) =
      (node? known false false (fuel + 2) tokens).bind fun r =>
        (flowEntries? known false (fuel + 2) r.2).bind fun s =>
          some ((.scalar none none key false, r.1) :: s.1, s.2) := by
  have hkey : optionalNode? stopsFlowKey (node? known false false (fuel + 2))
      (.scalar key false :: .value :: tokens) =
        some (.scalar none none key false, .value :: tokens) := rfl
  cases first <;>
    simp [flowEntries?, comma, afterComma?, hkey, entryValue?_of_startsNode _ h]

/-! ## Whole values -/

/-- The tokens of `value` are read as its node, with enough fuel, whatever follows. Twice the number
of tokens is enough. -/
def Spells (value : Json) : Prop :=
  ∀ (block hanging : Bool) (fuel : Nat) (rest : List Token), 2 * value.tokens.length ≤ fuel →
    node? known block hanging fuel (value.tokens ++ rest) = some (value.node, rest)

variable {known}

/-- A `value` of one scalar is read as that scalar. -/
private lemma spells_of_scalar {value : Json} {text : String} {plain : Bool}
    (htokens : value.tokens = [.scalar text plain])
    (hnode : value.node = (.scalar none none text plain : Node String)) : Spells known value := by
  intro block hanging fuel rest hfuel
  rw [htokens, List.length_singleton] at hfuel
  obtain ⟨fuel, rfl⟩ : ∃ k, fuel = k + 2 := ⟨fuel - 2, by omega⟩
  rw [htokens, hnode]
  rfl

/-- The items of an array are read up to its end.

**Proof sketch.** Induction on `items`, those after the first, with the first of them in front of
the others in each step (`flowItems?_of_startsNode`). -/
private lemma flowItems?_tokens {item : Json} {items : List Json} (hitem : Spells known item)
    (hitems : ∀ other ∈ items, Spells known other) (first : Bool) (fuel : Nat) (rest : List Token)
    (hfuel : 2 * (item.tokens.length + (Json.tokensOfItems items).length) < fuel) :
    flowItems? known first fuel (comma first ++
        (item.tokens ++ (Json.tokensOfItems items ++ .flowSequenceEnd :: rest))) =
      some (Json.nodesOfItems (item :: items), rest) := by
  induction items generalizing item first fuel with
  | nil =>
    have hpos := tokens_length_pos item
    obtain ⟨fuel, rfl⟩ : ∃ k, fuel = k + 2 := ⟨fuel - 2, by omega⟩
    rw [flowItems?_of_startsNode known (fuel + 1) first (startsNode_tokens item _),
      hitem false false (fuel + 1) _ (by omega)]
    simp [Json.tokensOfItems, flowItems?, Json.nodesOfItems]
  | cons next items ih =>
    rw [List.forall_mem_cons] at hitems
    simp only [Json.tokensOfItems, List.length_cons, List.length_append] at hfuel
    obtain ⟨fuel, rfl⟩ : ∃ k, fuel = k + 1 := ⟨fuel - 1, by omega⟩
    have hnext := ih hitems.1 hitems.2 false fuel (by omega)
    simp only [comma, Bool.false_eq_true, ↓reduceIte, List.cons_append, List.nil_append] at hnext
    rw [flowItems?_of_startsNode known fuel first (startsNode_tokens item _),
      hitem false false fuel _ (by omega)]
    simp [Json.tokensOfItems, hnext, Json.nodesOfItems]

/-- The fields of an object are read up to its end.

**Proof sketch.** Induction on `fields`, those after the first, as for items
(`flowItems?_tokens`). -/
private lemma flowEntries?_tokens (key : String) {value : Json} {fields : List (String × Json)}
    (hvalue : Spells known value) (hfields : ∀ field ∈ fields, Spells known field.2) (first : Bool)
    (fuel : Nat) (rest : List Token)
    (hfuel : 2 * (value.tokens.length + (Json.tokensOfFields fields).length) + 2 < fuel) :
    flowEntries? known first fuel (comma first ++ (.key :: .scalar key false :: .value ::
        (value.tokens ++ (Json.tokensOfFields fields ++ .flowMappingEnd :: rest)))) =
      some (Json.nodesOfFields ((key, value) :: fields), rest) := by
  induction fields generalizing key value first fuel with
  | nil =>
    obtain ⟨fuel, rfl⟩ : ∃ k, fuel = k + 3 := ⟨fuel - 3, by omega⟩
    rw [flowEntries?_key known fuel first key (startsNode_tokens value _),
      hvalue false false (fuel + 2) _ (by omega)]
    simp [Json.tokensOfFields, flowEntries?, Json.nodesOfFields]
  | cons next fields ih =>
    rw [List.forall_mem_cons] at hfields
    simp only [Json.tokensOfFields, List.length_cons, List.length_append] at hfuel
    obtain ⟨fuel, rfl⟩ : ∃ k, fuel = k + 3 := ⟨fuel - 3, by omega⟩
    have hnext := ih next.1 hfields.1 hfields.2 false (fuel + 2) (by omega)
    simp only [comma, Bool.false_eq_true, ↓reduceIte, List.cons_append, List.nil_append] at hnext
    rw [flowEntries?_key known fuel first key (startsNode_tokens value _),
      hvalue false false (fuel + 2) _ (by omega)]
    simp [Json.tokensOfFields, hnext, Json.nodesOfFields]

/-- **The tokens of a value spell its node**, whatever tokens follow.

**Proof sketch.** Induction on the evidence for the shape of `value`. Between a node and the parts
of its collection two calls and one token are taken, and each part takes a call of its own, so the
fuel is enough for them (`flowItems?_tokens`, `flowEntries?_tokens`). -/
theorem spells (known : TagShorthands) {depth : Nat} {value : Json}
    (h : Json.Shaped depth value) : Spells known value := by
  induction h with
  | boolean value => cases value <;> exact spells_of_scalar rfl rfl
  | number fits => exact spells_of_scalar rfl rfl
  | string text => exact spells_of_scalar rfl rfl
  | @array depth items shaped ih =>
    intro block hanging fuel rest hfuel
    rw [Json.node]
    cases items with
    | nil =>
      obtain ⟨fuel, rfl⟩ : ∃ k, fuel = k + 4 := ⟨fuel - 4, by simp [Json.tokens] at hfuel; omega⟩
      rfl
    | cons item items =>
      rw [List.forall_mem_cons] at ih
      simp only [Json.tokens, List.length_cons, List.length_append, List.length_nil] at hfuel
      obtain ⟨fuel, rfl⟩ : ∃ k, fuel = k + 2 := ⟨fuel - 2, by omega⟩
      have hitems := flowItems?_tokens ih.1 ih.2 true fuel rest (by omega)
      rw [comma, if_pos rfl, List.nil_append] at hitems
      rw [node?_of_startsNode known (fuel + 1) block hanging (startsNode_tokens _ rest)]
      simp [Json.tokens, content?, hitems]
  | @object depth fields keys distinct shaped ih =>
    intro block hanging fuel rest hfuel
    rw [Json.node]
    cases fields with
    | nil =>
      obtain ⟨fuel, rfl⟩ : ∃ k, fuel = k + 4 := ⟨fuel - 4, by simp [Json.tokens] at hfuel; omega⟩
      rfl
    | cons field fields =>
      rw [List.forall_mem_cons] at ih
      simp only [Json.tokens, List.length_cons, List.length_append, List.length_nil] at hfuel
      obtain ⟨fuel, rfl⟩ : ∃ k, fuel = k + 2 := ⟨fuel - 2, by omega⟩
      have hentries := flowEntries?_tokens field.1 ih.1 ih.2 true fuel rest (by omega)
      rw [comma, if_pos rfl, List.nil_append] at hentries
      rw [node?_of_startsNode known (fuel + 1) block hanging (startsNode_tokens _ rest)]
      simp [Json.tokens, content?, hentries]

end Reading

/-- No directive stands in front of a node. -/
private lemma directives?_of_startsNode {tokens : List Token} (h : startsNode tokens) :
    directives? false [] tokens = some (.standard, tokens) := by
  unfold startsNode at h
  split at h
  case h_4 => cases h
  all_goals simp [directives?]

/-- A node `root` that takes all the `tokens` is the root of a document without directives. -/
private lemma document?_of_startsNode {tokens : List Token} {root : Node String}
    (h : startsNode tokens)
    (hread : node? .standard true false (3 * tokens.length + 3) tokens = some (root, [])) :
    document? tokens = some root := by
  have hdirectives := directives?_of_startsNode h
  unfold startsNode at h
  split at h
  case h_4 => cases h
  all_goals
    unfold document?
    rw [hdirectives]
    dsimp only [Option.bind_eq_bind, Option.bind_some]
    rw [if_pos rfl, hread]
    rfl

/-- **The tokens of a value are a document** whose root is the node of `value`. By `spells` they are
read as that node and none are left. -/
theorem document?_tokens {depth : Nat} {value : Json} (h : Json.Shaped depth value) :
    document? value.tokens = some value.node := by
  have hread := spells .standard h true false (3 * value.tokens.length + 3) [] (by omega)
  have hstart := startsNode_tokens value []
  rw [List.append_nil] at hread hstart
  exact document?_of_startsNode hstart hread

/-! ## Names -/

namespace Node

variable {known : Anchors}

/-- Items whose nodes have no names have none together. Induction on `items`. -/
private lemma numberItems?_nodes {items : List Json}
    (h : ∀ item ∈ items, number? known item.node = some (item.node, known)) :
    numberItems? known (Json.nodesOfItems items) = some (Json.nodesOfItems items, known) := by
  induction items with
  | nil => rfl
  | cons item items ih =>
    rw [List.forall_mem_cons] at h
    simp [Json.nodesOfItems, numberItems?, h.1, ih h.2]

/-- Fields whose nodes have no names have none together, as their keys have none. Induction on
`fields`. -/
private lemma numberEntries?_nodes {fields : List (String × Json)}
    (h : ∀ field ∈ fields, number? known field.2.node = some (field.2.node, known)) :
    numberEntries? known (Json.nodesOfFields fields) =
      some (Json.nodesOfFields fields, known) := by
  induction fields with
  | nil => rfl
  | cons field fields ih =>
    rw [List.forall_mem_cons] at h
    simp [Json.nodesOfFields, numberEntries?, number?, Anchors.defineAny, h.1, ih h.2]

/-- **The node of a value has no names to be numbered**, so the `known` ones stay as they are. -/
theorem number?_node (known : Anchors) {depth : Nat} {value : Json}
    (h : Json.Shaped depth value) : number? known value.node = some (value.node, known) := by
  induction h with
  | boolean value => cases value <;> rfl
  | number fits => rfl
  | string text => rfl
  | array shaped ih =>
    simp [Json.node, number?, Anchors.defineAny, numberItems?_nodes ih]
  | object keys distinct shaped ih =>
    simp [Json.node, number?, Anchors.defineAny, numberEntries?_nodes ih]

end Node

/-! ## Meanings -/

namespace Value

/-- The `key` of an object is found among its `entries` by its text. -/
lemma hasKey_string_cons (key other : String) (value : Value) (entries : List (Value × Value)) :
    hasKey (.string key) ((.string other, value) :: entries) =
      (key == other || hasKey (.string key) entries) := rfl

section Reading

variable {table : AnchorTable} {depth jumps : Nat}

/-- A scalar without a tag has its meaning, `value`, at any depth. -/
private lemma ofNode?_scalar {text : String} {plain : Bool} {value : Value}
    (h : ofUntagged? text plain = some value) :
    ofNode? table depth jumps (.scalar none none text plain) = some (value, jumps) := by
  cases depth <;> simp [ofNode?, AnchorTable.follow?, ofScalar?, h]

/-- The nodes of `items` have the meanings of the items. -/
private lemma readItems?_nodes {items : List Json}
    (h : ∀ item ∈ items, ofNode? table depth jumps item.node = some (item.toYaml, jumps)) :
    readItems? (ofNode? table depth) jumps (Json.nodesOfItems items) =
      some (Json.itemsToYaml items, jumps) := by
  induction items with
  | nil => rfl
  | cons item items ih =>
    rw [List.forall_mem_cons] at h
    simp [Json.nodesOfItems, readItems?, h.1, ih h.2, Json.itemsToYaml]

/-- The nodes of `fields` have the meanings of the fields, if no key stands twice, neither among
them nor in the entries `before`.

**Proof sketch.** Induction on `fields`. The key of the first is new by `hbefore`, and the others
are read behind it; by `hdistinct` its key is none of theirs. -/
private lemma readEntries?_nodes {fields : List (String × Json)} (before : List (Value × Value))
    (hdistinct : (fields.map (·.1)).Nodup)
    (hbefore : ∀ field ∈ fields, hasKey (.string field.1) before = false)
    (h : ∀ field ∈ fields, ofNode? table depth jumps field.2.node =
      some (field.2.toYaml, jumps)) :
    readEntries? (ofNode? table depth) before jumps (Json.nodesOfFields fields) =
      some (before.reverse ++ Json.fieldsToYaml fields, jumps) := by
  induction fields generalizing before with
  | nil => simp [Json.nodesOfFields, readEntries?, Json.fieldsToYaml]
  | cons field fields ih =>
    rw [List.forall_mem_cons] at h hbefore
    rw [List.map_cons, List.nodup_cons] at hdistinct
    have hkey : ofNode? table depth jumps (.scalar none none field.1 false) =
        some (.string field.1, jumps) := ofNode?_scalar rfl
    have hafter : ∀ other ∈ fields,
        hasKey (.string other.1) ((.string field.1, field.2.toYaml) :: before) = false := by
      intro other hother
      have hne : other.1 ≠ field.1 := fun heq =>
        hdistinct.1 (heq ▸ List.mem_map_of_mem hother)
      simp [hasKey_string_cons, hne, hbefore.2 other hother]
    simp [Json.nodesOfFields, readEntries?, hkey, hbefore.1, h.1, ih _ hdistinct.2 hafter h.2,
      Json.fieldsToYaml]

/-- **The node of a value means the value**, within the `depth` that its collections need.

**Proof sketch.** Induction on the evidence for the shape of `value`. Scalars mean what their
spelling says (`Value.ofPlain?_toDigits` for numbers), and the keys of an object are distinct
(`Value.readEntries?_nodes`). -/
theorem ofNode?_node {value : Json} (h : Json.Shaped depth value) :
    ofNode? table depth jumps value.node = some (value.toYaml, jumps) := by
  induction h with
  | boolean value =>
    cases value <;>
      exact ofNode?_scalar (by simp [ofUntagged?, ofPlain?, isNull, boolean?, Json.toYaml])
  | number fits => exact ofNode?_scalar (ofPlain?_toDigits fits)
  | string text => exact ofNode?_scalar rfl
  | array shaped ih =>
    simp [Json.node, ofNode?, AnchorTable.follow?, readItems?_nodes ih, withTag, Json.toYaml]
  | object keys distinct shaped ih =>
    have hentries := readEntries?_nodes [] distinct (fun _ _ => rfl) ih
    simp [Json.node, ofNode?, AnchorTable.follow?, hentries, withTag, Json.toYaml]

end Reading

/-! ## Whole texts -/

/-- The encoded `text` is decoded as it was. -/
lemma fromUTF8?_toUTF8 (text : String) : String.fromUTF8? text.toUTF8 = some text := by
  have hvalid : text.toUTF8.IsValidUTF8 := text.isValidUTF8
  rw [String.fromUTF8?, dif_pos hvalid]
  rfl

section Write

variable (layout : Json.Layout) {fields : List (String × Json)}
  (h : Json.Shaped maxDepth (.object fields))

include h

/-- The text of an object of `fields` means the object with its texts folded, in either layout.

**Proof sketch.** The text gives the tokens of the folded object (`tokens?_write`), these are a
document of its node (`document?_tokens`) without names (`Node.number?_node`), and the node means
the object (`Value.ofNode?_node`). -/
private lemma ofString?_write
    (hallowed : (Json.write layout 0 (.object fields)).all isAllowed = true) :
    ofString? (String.ofList (Json.write layout 0 (.object fields))) =
      ((Json.object fields).fold?).map Json.toYaml := by
  rw [ofString?, String.toList_ofList, tokens?_write layout h hallowed, Json.foldTokens?]
  cases hfold : (Json.object fields).fold? with
  | none => rfl
  | some folded =>
    have hshaped := h.fold? hfold
    simp [document?_tokens hshaped, ofRoot?, Node.numbered?, Node.number?_node _ hshaped,
      ofNode?_node hshaped]

/-- **The encoded text of an object means the object with its texts folded**, in either layout, if
none of its texts has a forbidden character. Then the text may stand in a stream
(`Json.all_isAllowed_write_iff`). -/
theorem ofText?_write
    (hnone : ∀ text ∈ (Json.object fields).texts, ∀ c ∈ text.toList, ¬Json.IsForbidden c) :
    ofText? (String.ofList (Json.write layout 0 (.object fields))).toUTF8 =
      ((Json.object fields).fold?).map Json.toYaml := by
  rw [ofText?, fromUTF8?_toUTF8]
  exact ofString?_write layout h (Json.all_isAllowed_write_iff.2 hnone)

end Write

/-- **The encoded text of a value with a forbidden character `c` is no document**: it may not stand
in a stream (`Json.all_isAllowed_write_iff`). -/
theorem ofText?_write_of_forbidden (layout : Json.Layout) {level : Nat} {value : Json}
    {text : String} (htext : text ∈ value.texts) {c : Char} (hc : c ∈ text.toList)
    (h : Json.IsForbidden c) :
    ofText? (String.ofList (Json.write layout level value)).toUTF8 = none := by
  have hrefused : ¬(Json.write layout level value).all isAllowed = true := fun hall =>
    Json.all_isAllowed_write_iff.1 hall text htext c hc h
  have htokens : tokens? (Json.write layout level value) = none := by
    rw [tokens?, if_neg hrefused]
  rw [ofText?, fromUTF8?_toUTF8, Option.bind_eq_bind, Option.bind_some, ofString?,
    String.toList_ofList, htokens]
  rfl

end Value

end FirmwareBundle.Yaml
