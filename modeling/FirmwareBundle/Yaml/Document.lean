import FirmwareBundle.Yaml.Anchor
import FirmwareBundle.Yaml.Lexer
import FirmwareBundle.Yaml.Scalar
/-!
# Documents as values

Aliases are replaced by what they stand for, scalars get their meaning, and a key may stand only
once in a mapping. Two limits keep a short text from growing without end: collections nest at most
128 deep, and aliases are followed at most a hundred times for each event of the document.

## Main definitions

* `FirmwareBundle.Yaml.Value.ofNode?` — the value of a numbered node.
* `FirmwareBundle.Yaml.Value.ofText?` — the value of the one document in a text.
-/

namespace FirmwareBundle.Yaml

/-- How deep collections may nest. -/
def maxDepth : Nat := 128

/-- How often aliases may be followed for each event of a document. -/
def jumpsPerEvent : Nat := 100

/-- The nodes that aliases stand for. -/
abbrev AnchorTable := List (Nat × Node Nat)

/-- The anchored nodes below `root`, with the last of each number in front. -/
def AnchorTable.ofRoot (root : Node Nat) : AnchorTable :=
  root.anchored.reverse

/-- The node that an alias stands for in the `table`, and the jumps left after following it. Other
nodes stand for themselves and take no jump. -/
def AnchorTable.follow? (table : AnchorTable) (jumps : Nat) : Node Nat → Option (Node Nat × Nat)
  | .alias n =>
    match jumps, table.lookup n with
    | jumps + 1, some node => some (node, jumps)
    | _, _ => none
  | node => some (node, jumps)

namespace Value

/-- Puts the `tag` of a collection around its `value`, if it is one of the writer's own. -/
def withTag (tag : Option Tag) (value : Value) : Value :=
  match tag with
  | some (.custom name) => .tagged name value
  | some .nonspecific => .tagged "!" value
  | _ => value

/-- Whether one of the `entries` has the `key`. -/
def hasKey (key : Value) (entries : List (Value × Value)) : Bool :=
  entries.any fun entry => key.same entry.1

/-- Reads items with `read`, one after the other, passing on the jumps that are left. -/
def readItems? (read : Nat → Node Nat → Option (Value × Nat)) :
    (jumps : Nat) → List (Node Nat) → Option (List Value × Nat)
  | jumps, [] => some ([], jumps)
  | jumps, item :: items => do
    let (item, jumps) ← read jumps item
    let (items, jumps) ← readItems? read jumps items
    pure (item :: items, jumps)

/-- Reads entries with `read`, one after the other, passing on the jumps that are left. A key that
stands among the entries `before` it is refused. -/
def readEntries? (read : Nat → Node Nat → Option (Value × Nat)) :
    (before : List (Value × Value)) → (jumps : Nat) → List (Node Nat × Node Nat) →
    Option (List (Value × Value) × Nat)
  | before, jumps, [] => some (before.reverse, jumps)
  | before, jumps, (key, value) :: entries => do
    let (key, jumps) ← read jumps key
    if hasKey key before then none
    else
      let (value, jumps) ← read jumps value
      readEntries? read ((key, value) :: before) jumps entries

/-- The value of a node, and the `jumps` left after it. Collections may nest `depth` deep, and
aliases stand for nodes of the `table`. -/
def ofNode? (table : AnchorTable) : (depth jumps : Nat) → Node Nat → Option (Value × Nat)
  | 0, jumps, node =>
    match table.follow? jumps node with
    | some (.scalar _ tag text plain, jumps) => (ofScalar? tag text plain).map (·, jumps)
    | _ => none
  | depth + 1, jumps, node =>
    match table.follow? jumps node with
    | some (.scalar _ tag text plain, jumps) => (ofScalar? tag text plain).map (·, jumps)
    | some (.sequence _ tag items, jumps) =>
      (readItems? (ofNode? table depth) jumps items).map fun r => (withTag tag (.sequence r.1), r.2)
    | some (.mapping _ tag entries, jumps) =>
      (readEntries? (ofNode? table depth) [] jumps entries).map fun r =>
        (withTag tag (.mapping r.1), r.2)
    | _ => none

/-- The value of the `root` of a document. It may nest `maxDepth` deep, and aliases may be followed
`jumpsPerEvent` times for each of its events. -/
def ofRoot? (root : Node String) : Option Value := do
  let root ← root.numbered?
  let (value, _) ← ofNode? (.ofRoot root) maxDepth (jumpsPerEvent * root.eventCount) root
  pure value

/-- The value of the document in `text`; a text without any is null. -/
def ofString? (text : String) : Option Value := do
  let tokens ← tokens? text.toList
  let root ← document? tokens
  ofRoot? root

/-- The value of the document in the encoded `text`. -/
def ofText? (text : ByteArray) : Option Value := do
  let text ← String.fromUTF8? text
  ofString? text

end Value

end FirmwareBundle.Yaml
