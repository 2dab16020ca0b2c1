import FirmwareBundle.Toml.Item
/-!
# A TOML document while it is read

A header opens a table, and the entries below it belong to that table until the next header. A
closed table is put under its path. A table that was only on the way to another one may still be
opened once; it then moves behind the tables beside it.

## Main definitions

* `FirmwareBundle.Toml.Draft` — the closed tables, and the open one.
* `FirmwareBundle.Toml.Draft.openTable?`, `FirmwareBundle.Toml.Draft.openElement?` — the two kinds
  of headers.
* `FirmwareBundle.Toml.Draft.insert?` — an entry of the open table.
* `FirmwareBundle.Toml.Draft.close?` — the whole document.
-/

namespace FirmwareBundle.Toml

/-- The place of the open table: the document itself, a path to a table, or a path to an array of
tables. -/
inductive OpenPlace where
  | root
  | table (parents : List Key) (key : Key)
  | element (parents : List Key) (key : Key)

/-- A document while it is read. -/
structure Draft where
  closed : Entries
  place : OpenPlace
  entries : Entries
  span : Option Span

namespace Draft

/-- The document before its first statement. -/
def empty : Draft :=
  ⟨[], .root, [], none⟩

/-- The open table of `d` as an item. -/
def item (d : Draft) : Item :=
  .table .header d.entries d.span

/-- Puts the open table of `d` under its path. -/
def close? (d : Draft) : Option Entries :=
  match d.place with
  | .root => some d.entries
  | .table parents key => d.closed.insert? .header parents key d.item
  | .element parents key =>
    let push : Entries → Option (Unit × Entries) := fun entries =>
      match entries.get? key.name with
      | some (.tables elements _) => some ((), entries.replace key.name (.push elements d.item))
      | _ => none
    (d.closed.along? .header parents push).map (·.2)

/-- Opens the table of a header: `key` in the table that `parents` lead to. Only a table that was
implied may be there already; what it holds stays in it. -/
def openTable? (d : Draft) (parents : List Key) (key : Key) (span : Span) : Option Draft := do
  let closed ← d.close?
  let take : Entries → Option (Entries × Entries) := fun entries =>
    match entries.get? key.name with
    | none => some ([], entries)
    | some (.table .implied inner _) => some (inner, entries.erase key.name)
    | _ => none
  let (inner, closed) ← closed.along? .header parents take
  pure ⟨closed, .table parents key, inner, some span⟩

/-- Opens another element of the array of tables that `parents` and `key` lead to. -/
def openElement? (d : Draft) (parents : List Key) (key : Key) (span : Span) : Option Draft := do
  let closed ← d.close?
  let make : Entries → Option (Unit × Entries) := fun entries =>
    match entries.get? key.name with
    | none => some ((), entries ++ [(key, .tables [] none)])
    | some (.tables ..) => some ((), entries)
    | _ => none
  let (_, closed) ← closed.along? .header parents make
  pure ⟨closed, .element parents key, [], some span⟩

/-- Adds `item` to the open table under `parents` and `key`. The open table then reaches to the end
of the entry. -/
def insert? (d : Draft) (parents : List Key) (key : Key) (item : Item) : Option Draft := do
  let entries ← d.entries.insert? .dotted parents key item
  let span :=
    match d.span, item.span with
    | some a, some b => some ⟨a.first, b.last⟩
    | span, _ => span
  pure { d with entries, span }

end Draft

end FirmwareBundle.Toml
