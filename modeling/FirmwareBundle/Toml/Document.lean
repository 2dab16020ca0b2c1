import FirmwareBundle.Toml.Draft
import FirmwareBundle.Toml.Quote
/-!
# Reading a TOML document

A document is a list of statements: headers and entries, each on a line of its own unless a value
goes over several lines.

## Main definitions

* `FirmwareBundle.Toml.key?` — a key with its dots.
* `FirmwareBundle.Toml.value?` — a value.
* `FirmwareBundle.Toml.statement?` — a line with a header or an entry.
* `FirmwareBundle.Toml.Entries.ofText?` — the entries of a whole document.

## Implementation notes

Values are read with a bound on the depth of calls. Of two calls in a row at least one takes a
character, so twice the length of the text is always enough. Arrays and tables between braces nest
less than 80 deep, and a key has less than 80 parts.
-/

namespace FirmwareBundle.Toml

/-- The bound that depths and numbers of parts stay below. -/
def depthLimit : Nat := 80

/-! ## Keys -/

/-- Whether `c` may stand in a key without quotes. -/
def isBareKeyChar (c : Char) : Bool :=
  c.isAlphanum || c == '_' || c == '-'

/-- Reads one part of a key. -/
def keyPart? (here : Cursor) : Option (Key × Cursor) :=
  match here.rest with
  | '"' :: _ | '\'' :: _ =>
    (shortString? here).map fun (name, next) => (⟨name, ⟨here.offset, next.offset⟩⟩, next)
  | _ =>
    let (name, next) := here.takeWhile isBareKeyChar
    if name.isEmpty then none
    else some (⟨String.ofList name, ⟨here.offset, next.offset⟩⟩, next)

/-- Reads the parts of a key with dots between them. Every part takes a character, so the length of
the rest is enough `fuel`. -/
def keyParts? : (fuel : Nat) → Cursor → Option (List Key × Key × Cursor)
  | 0, _ => none
  | fuel + 1, here => do
    let (part, next) ← keyPart? here.blanks
    let next := next.blanks
    match next.skip? '.' with
    | none => pure ([], part, next)
    | some next =>
      let (parents, last, next) ← keyParts? fuel next
      pure (part :: parents, last, next)

/-- Reads a key: the parts before the last, the last part, and the place behind it. -/
def key? (here : Cursor) : Option (List Key × Key × Cursor) := do
  let (parents, last, next) ← keyParts? (here.rest.length + 1) here
  guard (parents.length + 1 < depthLimit)
  pure (parents, last, next)

/-! ## Values -/

/-- Whether `c` may stand in a word. -/
def isWordChar (c : Char) : Bool :=
  c.isAlphanum || c == '_' || c == '-' || c == '+' || c == '.' || c == ':'

/-- Reads a word; a date goes on behind a blank if a digit follows there. -/
def word (here : Cursor) : List Char × Cursor :=
  let (first, next) := here.takeWhile isWordChar
  match next.rest with
  | ' ' :: d :: _ =>
    if isDate first ∧ d.isDigit then
      let (second, next) := Cursor.takeWhile isWordChar ⟨next.rest.tail, next.offset + 1⟩
      (first ++ ' ' :: second, next)
    else (first, next)
  | _ => (first, next)

/-- Reads a scalar. -/
def scalar? (here : Cursor) : Option (Scalar × Cursor) :=
  match here.rest with
  | '"' :: _ | '\'' :: _ => (string? here).map fun (s, next) => (.string s, next)
  | _ =>
    let (text, next) := word here
    (Scalar.ofWord? text).map (·, next)

/-- An entry between braces: the parts of its key and its value. -/
abbrev InlineEntry := List Key × Key × Item

/-- The table of the entries `written` between braces. -/
def inlineEntries? (written : List InlineEntry) : Option Entries :=
  written.foldlM (fun entries (parents, key, item) =>
    entries.insert? .inlineDotted parents key item) []

mutual

/-- Reads a value. Collections may stand in `depth` others. -/
def valueWithin? (depth : Nat) : (fuel : Nat) → Cursor → Option (Item × Cursor)
  | 0, _ => none
  | fuel + 1, here =>
    match here.rest with
    | '[' :: rest =>
      if depth + 1 < depthLimit then do
        let (items, next) ← arrayItems? (depth + 1) fuel ⟨rest, here.offset + 1⟩
        pure (.array items (some ⟨here.offset, next.offset⟩), next)
      else none
    | '{' :: rest =>
      if depth + 1 < depthLimit then do
        let start := Cursor.blanks ⟨rest, here.offset + 1⟩
        let (written, next) ←
          match start.skip? '}' with
          | some next => some ([], next)
          | none => tableEntries? (depth + 1) fuel start
        let entries ← inlineEntries? written
        pure (.table .inline entries (some ⟨here.offset, next.offset⟩), next)
      else none
    | _ =>
      (scalar? here).map fun (value, next) =>
        (.scalar value (some ⟨here.offset, next.offset⟩), next)

/-- Reads the items of an array up to its end. They stand in `depth` collections. -/
def arrayItems? (depth : Nat) : (fuel : Nat) → Cursor → Option (List Item × Cursor)
  | 0, _ => none
  | fuel + 1, here => do
    let here ← here.gaps?
    match here.skip? ']' with
    | some next => pure ([], next)
    | none =>
      let (item, next) ← valueWithin? depth fuel here
      let next ← next.gaps?
      match next.skip? ',' with
      | some next =>
        let (items, next) ← arrayItems? depth fuel next
        pure (item :: items, next)
      | none => (next.skip? ']').map ([item], ·)

/-- Reads the entries of a table between braces up to its end. Their values stand in `depth`
collections. -/
def tableEntries? (depth : Nat) : (fuel : Nat) → Cursor → Option (List InlineEntry × Cursor)
  | 0, _ => none
  | fuel + 1, here => do
    let (parents, key, next) ← key? here
    let next ← next.skip? '='
    let (item, next) ← valueWithin? depth fuel next.blanks
    let next := next.blanks
    match next.skip? ',' with
    | some next =>
      let (entries, next) ← tableEntries? depth fuel next
      pure ((parents, key, item) :: entries, next)
    | none => (next.skip? '}').map ([(parents, key, item)], ·)

end

/-- Reads a value. -/
def value? (here : Cursor) : Option (Item × Cursor) :=
  valueWithin? 0 (2 * here.rest.length + 2) here

/-! ## Statements -/

/-- Reads a header at its first bracket, and opens its table in `d`. -/
def header? (d : Draft) (here : Cursor) : Option (Draft × Cursor) := do
  let inside ← here.skip? '['
  match inside.skip? '[' with
  | some inside =>
    let (parents, key, next) ← key? inside
    let next ← (next.skip? ']').bind (·.skip? ']')
    let d ← d.openElement? parents key ⟨here.offset, next.offset⟩
    pure (d, ← next.lineEnd?)
  | none =>
    let (parents, key, next) ← key? inside
    let next ← next.skip? ']'
    let d ← d.openTable? parents key ⟨here.offset, next.offset⟩
    pure (d, ← next.lineEnd?)

/-- Reads an entry, and adds it to the open table of `d`. -/
def entry? (d : Draft) (here : Cursor) : Option (Draft × Cursor) := do
  let (parents, key, next) ← key? here
  let next ← next.skip? '='
  let (item, next) ← value? next.blanks
  let d ← d.insert? parents key item
  pure (d, ← next.lineEnd?)

/-- Reads a line that is not at the end of the text, with `d` before it. -/
def statement? (d : Draft) (here : Cursor) : Option (Draft × Cursor) :=
  match here.rest with
  | '#' :: _ | '\n' :: _ | '\r' :: _ => here.lineEnd?.map (d, ·)
  | '[' :: _ => header? d here
  | _ => entry? d here

/-- Reads lines up to the end of the text, with `d` before them. Every line takes a character, so
the length of the rest is enough `fuel`. -/
def statements? : (fuel : Nat) → Draft → Cursor → Option Draft
  | 0, _, _ => none
  | fuel + 1, d, here =>
    let here := here.blanks
    if here.rest.isEmpty then some d
    else
      match statement? d here with
      | none => none
      | some (d, next) => statements? fuel d next

/-- The mark of the byte order, which may stand before a document. -/
def byteOrderMark : Char := '\ufeff'

/-- The entries of the document `text`. -/
def Entries.ofText? (text : String) : Option Entries :=
  let here := Cursor.start text
  let here := (here.skip? byteOrderMark).getD here
  (statements? (here.rest.length + 1) .empty here).bind Draft.close?

end FirmwareBundle.Toml
