import FirmwareBundle.Yaml.Token
/-!
# Nodes of a YAML document

What a document says before its scalars are given a meaning: scalars, sequences and mappings with
their tags, and aliases that stand for a node named elsewhere.

## Main definitions

* `FirmwareBundle.Yaml.Tag` — what a tag asks for.
* `FirmwareBundle.Yaml.Node` — the nodes, over the type of names of anchors.
* `FirmwareBundle.Yaml.node?` — the node at the start of the tokens.
* `FirmwareBundle.Yaml.document?` — the root node of a stream with at most one document.

## Implementation notes

Each reader takes a bound on its depth of calls. Of two calls in a row at least one takes a token,
so three times the number of tokens is always enough.
-/

namespace FirmwareBundle.Yaml

/-! ## Tags -/

/-- What a tag asks of a node: one of four scalar types, any other type of a shared vocabulary, a
type of the writer's own, one whose name is no text, or only that the node be not plain. -/
inductive Tag where
  | boolean
  | integer
  | float
  | null
  | foreign
  | custom (name : String)
  | illegible
  | nonspecific
  deriving DecidableEq

/-- The address that the handle of two marks stands for. -/
def coreAddress : String := "tag:yaml.org,2002:"

/-- The text `name` without one mark at its start; a lone mark stays. -/
def dropMark (name : String) : String :=
  match name.toList with
  | '!' :: c :: rest => String.ofList (c :: rest)
  | _ => name

/-- The tag of an `address`. A name of the writer's own is told apart without its marks; an address
that is no text names no type that is known, but its first byte still shows whose it is. -/
def Tag.ofAddress (address : ByteArray) : Tag :=
  match String.fromUTF8? address with
  | none => if address.data[0]? = some '!'.toUInt8 then .illegible else .foreign
  | some text =>
    if text = "!" then .nonspecific
    else if text.toList.head? = some '!' then .custom (dropMark (dropMark text))
    else if text = coreAddress ++ "bool" then .boolean
    else if text = coreAddress ++ "int" then .integer
    else if text = coreAddress ++ "float" then .float
    else if text = coreAddress ++ "null" then .null
    else .foreign

/-- The addresses that the handles of tags stand for. -/
abbrev TagShorthands := List (String × ByteArray)

/-- The handles that every document knows, after those it defines itself. -/
def TagShorthands.standard : TagShorthands :=
  [("!", "!".toUTF8), ("!!", coreAddress.toUTF8)]

/-- The tag of a `handle` and a `suffix`. A handle that is not `known` is refused. -/
def TagShorthands.tag? (known : TagShorthands) (handle : String) (suffix : ByteArray) :
    Option Tag :=
  if handle = "" then some (Tag.ofAddress suffix)
  else (known.lookup handle).map fun address => Tag.ofAddress (address ++ suffix)

/-! ## Nodes -/

/-- A node, whose anchors have names in `α`. Nodes other than aliases may carry an anchor and a
tag. -/
inductive Node (α : Type) where
  | alias (name : α)
  | scalar (anchor : Option α) (tag : Option Tag) (text : String) (plain : Bool)
  | sequence (anchor : Option α) (tag : Option Tag) (items : List (Node α))
  | mapping (anchor : Option α) (tag : Option Tag) (entries : List (Node α × Node α))

/-- The node that stands where none is written. -/
def Node.empty {α : Type} : Node α :=
  .scalar none none "" true

/-- A part of the grammar: what it reads from the start of the tokens, and the tokens it leaves. -/
abbrev Reader (α : Type) := List Token → Option (α × List Token)

/-- The anchor and the tag at the start of the tokens, in either order, each at most once; the
handles in `known` have been defined. -/
def properties? (known : TagShorthands) : Reader (Option String × Option Tag)
  | .anchor a :: .tag h s :: rest => (known.tag? h s).map fun t => ((some a, some t), rest)
  | .tag h s :: .anchor a :: rest => (known.tag? h s).map fun t => ((some a, some t), rest)
  | .anchor a :: rest => some ((some a, none), rest)
  | .tag h s :: rest => (known.tag? h s).map fun t => ((none, some t), rest)
  | rest => some ((none, none), rest)

/-- A node with the properties `anchor` and `tag` and no content; without either there is no
node. -/
def bare? (anchor : Option String) (tag : Option Tag) : Reader (Node String) := fun rest =>
  if anchor.isSome ∨ tag.isSome then some (.scalar anchor tag "" true, rest) else none

/-- Reads a node with `read`, unless `stops` holds of the next token, at which it may be left
out. -/
def optionalNode? (stops : Token → Bool) (read : Reader (Node String)) : Reader (Node String)
  | t :: rest => if stops t then some (.empty, t :: rest) else read (t :: rest)
  | [] => read []

/-- Reads the value of an entry with `read`, unless `stops` holds of the token behind the colon;
without a colon there is none. -/
def entryValue? (stops : Token → Bool) (read : Reader (Node String)) : Reader (Node String)
  | .value :: rest => optionalNode? stops read rest
  | rest => some (.empty, rest)

/-- Reads the key of an entry in a flow sequence with `read`. If `stops` holds of the next token,
the key is left out, and this token is passed over. -/
def loneKey? (stops : Token → Bool) (read : Reader (Node String)) : Reader (Node String)
  | t :: rest => if stops t then some (.empty, rest) else read (t :: rest)
  | [] => read []

/-- Passes over the comma before every entry but the `first`. -/
def afterComma? (first : Bool) (tokens : List Token) : Option (List Token) :=
  if first then some tokens
  else
    match tokens with
    | .flowEntry :: rest => some rest
    | _ => none

/-- The tokens before which an item of a block sequence is left out. -/
def stopsItem : Token → Bool
  | .blockEntry | .blockEnd => true
  | _ => false

/-- The tokens before which a key or a value of a block mapping is left out. -/
def stopsEntry : Token → Bool
  | .key | .value | .blockEnd => true
  | _ => false

/-- The tokens before which an item of a hanging sequence is left out. -/
def stopsHanging : Token → Bool
  | .blockEntry | .key | .value | .blockEnd => true
  | _ => false

/-- The tokens before which a key of a flow sequence is left out. -/
def stopsLoneKey : Token → Bool
  | .value | .flowEntry | .flowSequenceEnd => true
  | _ => false

/-- The tokens before which a key of a flow mapping is left out. -/
def stopsFlowKey : Token → Bool
  | .value | .flowEntry | .flowMappingEnd => true
  | _ => false

/-- The tokens before which a value of a flow sequence is left out. -/
def stopsFlowItem : Token → Bool
  | .flowEntry | .flowSequenceEnd => true
  | _ => false

/-- The tokens before which a value of a flow mapping is left out. -/
def stopsFlowValue : Token → Bool
  | .flowEntry | .flowMappingEnd => true
  | _ => false

mutual

/-- Reads a node. Block collections are read only if `block` holds, and the items of a sequence
without an indentation of its own only if `hanging` holds. -/
def node? (known : TagShorthands) (block hanging : Bool) : (fuel : Nat) → Reader (Node String)
  | 0, _ => none
  | _ + 1, .alias name :: rest => some (.alias name, rest)
  | fuel + 1, tokens =>
    match properties? known tokens with
    | none => none
    | some ((anchor, tag), rest) => content? known block hanging anchor tag fuel rest

/-- Reads the content of a node behind its properties `anchor` and `tag`. -/
def content? (known : TagShorthands) (block hanging : Bool) (anchor : Option String)
    (tag : Option Tag) : (fuel : Nat) → Reader (Node String)
  | 0, _ => none
  | _ + 1, .scalar text plain :: rest =>
    some (.scalar anchor (if tag = some .nonspecific then none else tag) text plain, rest)
  | fuel + 1, .flowSequenceStart :: rest =>
    (flowItems? known true fuel rest).map fun r => (.sequence anchor tag r.1, r.2)
  | fuel + 1, .flowMappingStart :: rest =>
    (flowEntries? known true fuel rest).map fun r => (.mapping anchor tag r.1, r.2)
  | fuel + 1, .blockSequenceStart :: rest =>
    if block then (blockItems? known fuel rest).map fun r => (.sequence anchor tag r.1, r.2)
    else bare? anchor tag (.blockSequenceStart :: rest)
  | fuel + 1, .blockMappingStart :: rest =>
    if block then (blockEntries? known fuel rest).map fun r => (.mapping anchor tag r.1, r.2)
    else bare? anchor tag (.blockMappingStart :: rest)
  | fuel + 1, .blockEntry :: rest =>
    if hanging then
      (hangingItems? known fuel (.blockEntry :: rest)).map fun r => (.sequence anchor tag r.1, r.2)
    else bare? anchor tag (.blockEntry :: rest)
  | _ + 1, rest => bare? anchor tag rest

/-- Reads the items of a block sequence up to its end. -/
def blockItems? (known : TagShorthands) : (fuel : Nat) → Reader (List (Node String))
  | 0, _ => none
  | _ + 1, .blockEnd :: rest => some ([], rest)
  | fuel + 1, .blockEntry :: rest => do
    let (item, rest) ← optionalNode? stopsItem (node? known true false fuel) rest
    let (items, rest) ← blockItems? known fuel rest
    pure (item :: items, rest)
  | _ + 1, _ => none

/-- Reads the items of a sequence that ends where no item follows. -/
def hangingItems? (known : TagShorthands) : (fuel : Nat) → Reader (List (Node String))
  | 0, _ => none
  | fuel + 1, .blockEntry :: rest => do
    let (item, rest) ← optionalNode? stopsHanging (node? known true false fuel) rest
    let (items, rest) ← hangingItems? known fuel rest
    pure (item :: items, rest)
  | _ + 1, rest => some ([], rest)

/-- Reads the entries of a block mapping up to its end. -/
def blockEntries? (known : TagShorthands) :
    (fuel : Nat) → Reader (List (Node String × Node String))
  | 0, _ => none
  | _ + 1, .blockEnd :: rest => some ([], rest)
  | fuel + 1, .key :: rest => do
    let (key, rest) ← optionalNode? stopsEntry (node? known true true fuel) rest
    let (value, rest) ← entryValue? stopsEntry (node? known true true fuel) rest
    let (entries, rest) ← blockEntries? known fuel rest
    pure ((key, value) :: entries, rest)
  | _ + 1, _ => none

/-- Reads the items of a flow sequence up to its end; a comma stands before every item but the
`first`. An item with a key mark is a mapping of one entry. -/
def flowItems? (known : TagShorthands) (first : Bool) :
    (fuel : Nat) → Reader (List (Node String))
  | 0, _ => none
  | _ + 1, .flowSequenceEnd :: rest => some ([], rest)
  | fuel + 1, tokens =>
    match afterComma? first tokens with
    | none => none
    | some (.flowSequenceEnd :: rest) => some ([], rest)
    | some (.key :: rest) => do
      let (key, rest) ← loneKey? stopsLoneKey (node? known false false fuel) rest
      let (value, rest) ← entryValue? stopsFlowItem (node? known false false fuel) rest
      let (items, rest) ← flowItems? known false fuel rest
      pure (.mapping none none [(key, value)] :: items, rest)
    | some rest => do
      let (item, rest) ← node? known false false fuel rest
      let (items, rest) ← flowItems? known false fuel rest
      pure (item :: items, rest)

/-- Reads the entries of a flow mapping up to its end; a comma stands before every entry but the
`first`. A node without a key mark is a key without a value. -/
def flowEntries? (known : TagShorthands) (first : Bool) :
    (fuel : Nat) → Reader (List (Node String × Node String))
  | 0, _ => none
  | _ + 1, .flowMappingEnd :: rest => some ([], rest)
  | fuel + 1, tokens =>
    match afterComma? first tokens with
    | none => none
    | some (.flowMappingEnd :: rest) => some ([], rest)
    | some (.key :: rest) => do
      let (key, rest) ← optionalNode? stopsFlowKey (node? known false false fuel) rest
      let (value, rest) ← entryValue? stopsFlowValue (node? known false false fuel) rest
      let (entries, rest) ← flowEntries? known false fuel rest
      pure ((key, value) :: entries, rest)
    | some rest => do
      let (key, rest) ← node? known false false fuel rest
      let (entries, rest) ← flowEntries? known false fuel rest
      pure ((key, .empty) :: entries, rest)

end

/-! ## Documents -/

/-- Reads the directives before a document: one version, of the two known ones, and handles of tags,
each once. The version was read before if `versioned` holds, and the handles in `known`. -/
def directives? (versioned : Bool) (known : TagShorthands) : Reader TagShorthands
  | .versionDirective major minor :: rest =>
    if versioned ∨ major ≠ 1 ∨ (minor ≠ 1 ∧ minor ≠ 2) then none
    else directives? true known rest
  | .tagDirective handle address :: rest =>
    if (known.lookup handle).isSome then none
    else directives? versioned (known ++ [(handle, address)]) rest
  | rest => some (known ++ .standard, rest)

/-- Whether the tokens hold nothing but marks that close a document. -/
def onlyEnds : List Token → Bool
  | .documentEnd :: rest => onlyEnds rest
  | [] => true
  | _ => false

/-- The root after the mark that opens a document, where it may be left out. The handles in `known`
have been defined. -/
def explicitRoot? (known : TagShorthands) : Reader (Node String)
  | [] => some (.empty, [])
  | .documentEnd :: rest => some (.empty, .documentEnd :: rest)
  | rest => node? known true false (3 * rest.length + 3) rest

/-- The root node of a stream of at most one document. The stream without `tokens` has an empty
root. -/
def document? (tokens : List Token) : Option (Node String) :=
  match tokens with
  | [] => some .empty
  | _ => do
    let (known, rest) ← directives? false [] tokens
    let (root, rest) ←
      match rest with
      | .documentStart :: rest => explicitRoot? known rest
      | _ =>
        if rest.length = tokens.length then node? known true false (3 * rest.length + 3) rest
        else none
    guard (onlyEnds rest)
    pure root

end FirmwareBundle.Yaml
