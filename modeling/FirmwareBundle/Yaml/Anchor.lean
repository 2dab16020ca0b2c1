import FirmwareBundle.Yaml.Node
/-!
# Anchors and the nodes they name

An anchor may be used again for a later node, so aliases are settled in the order of the text: each
anchored node gets a number, and each alias the number that its name has at that point. A number is
the count of the names seen before, so a name that is used again may share its number with the next
new name; an alias stands for the last node of its number.

## Main definitions

* `FirmwareBundle.Yaml.Anchors` — the names seen so far, with their numbers.
* `FirmwareBundle.Yaml.Node.numbered?` — the node with numbers in place of names.
* `FirmwareBundle.Yaml.Node.anchored` — the anchored nodes of a node, in the order of the text.
* `FirmwareBundle.Yaml.Node.eventCount` — the length of a node as a list of starts and ends.
-/

namespace FirmwareBundle.Yaml

/-! ## Names and numbers -/

/-- The names of anchors seen so far, each once, with the number it was given last. -/
abbrev Anchors := List (String × Nat)

/-- Gives `name` its number, which is the count of the names in `known`. A number that it had
before is forgotten. -/
def Anchors.define (known : Anchors) (name : String) : Nat × Anchors :=
  (known.length, (name, known.length) :: known.filter (·.1 != name))

/-- Gives a node's anchor its number, if it has one. -/
def Anchors.defineAny (known : Anchors) : Option String → Option Nat × Anchors
  | none => (none, known)
  | some name => ((known.define name).1, (known.define name).2)

namespace Node

mutual

/-- The node with numbers in place of names, and the names seen after it, if those in `known` were
seen before. An alias to a name that was not seen is refused. -/
def number? (known : Anchors) : Node String → Option (Node Nat × Anchors)
  | .alias name => (known.lookup name).map fun n => (.alias n, known)
  | .scalar anchor tag text plain =>
    let (anchor, known) := known.defineAny anchor
    some (.scalar anchor tag text plain, known)
  | .sequence anchor tag items =>
    let (anchor, known) := known.defineAny anchor
    (numberItems? known items).map fun r => (.sequence anchor tag r.1, r.2)
  | .mapping anchor tag entries =>
    let (anchor, known) := known.defineAny anchor
    (numberEntries? known entries).map fun r => (.mapping anchor tag r.1, r.2)

/-- Numbers the items of a sequence one after the other, each with the names that were seen before
it. -/
def numberItems? (known : Anchors) : List (Node String) → Option (List (Node Nat) × Anchors)
  | [] => some ([], known)
  | item :: items => do
    let (item, known) ← number? known item
    let (items, known) ← numberItems? known items
    pure (item :: items, known)

/-- Numbers the keys and values of a mapping in their order, each with the names that were seen
before it. -/
def numberEntries? (known : Anchors) :
    List (Node String × Node String) → Option (List (Node Nat × Node Nat) × Anchors)
  | [] => some ([], known)
  | (key, value) :: entries => do
    let (key, known) ← number? known key
    let (value, known) ← number? known value
    let (entries, known) ← numberEntries? known entries
    pure ((key, value) :: entries, known)

end

/-- The `root` of a document with numbers in place of names. -/
def numbered? (root : Node String) : Option (Node Nat) :=
  (number? [] root).map (·.1)

/-! ## Views of a numbered node -/

/-- The `node` with its number in front, if it has one. -/
def withNumber (node : Node Nat) : Option Nat → List (Nat × Node Nat)
  | none => []
  | some n => [(n, node)]

mutual

/-- The anchored nodes in a node, itself included, in the order in which they start. -/
def anchored : Node Nat → List (Nat × Node Nat)
  | .alias _ => []
  | .scalar anchor tag text plain => withNumber (.scalar anchor tag text plain) anchor
  | .sequence anchor tag items =>
    withNumber (.sequence anchor tag items) anchor ++ anchoredItems items
  | .mapping anchor tag entries =>
    withNumber (.mapping anchor tag entries) anchor ++ anchoredEntries entries

/-- The anchored nodes in the items of a sequence. -/
def anchoredItems : List (Node Nat) → List (Nat × Node Nat)
  | [] => []
  | item :: items => anchored item ++ anchoredItems items

/-- The anchored nodes in the keys and values of a mapping. -/
def anchoredEntries : List (Node Nat × Node Nat) → List (Nat × Node Nat)
  | [] => []
  | (key, value) :: entries => anchored key ++ anchored value ++ anchoredEntries entries

end

mutual

/-- The number of starts, ends and leaves that a node is told in. -/
def eventCount : Node Nat → Nat
  | .alias _ => 1
  | .scalar .. => 1
  | .sequence _ _ items => 2 + eventCountItems items
  | .mapping _ _ entries => 2 + eventCountEntries entries

/-- The events of the items of a sequence. -/
def eventCountItems : List (Node Nat) → Nat
  | [] => 0
  | item :: items => eventCount item + eventCountItems items

/-- The events of the keys and values of a mapping. -/
def eventCountEntries : List (Node Nat × Node Nat) → Nat
  | [] => 0
  | (key, value) :: entries => eventCount key + eventCount value + eventCountEntries entries

end

end Node

end FirmwareBundle.Yaml
