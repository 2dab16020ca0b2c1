import FirmwareBundle.Mismatch
import FirmwareBundle.Toml.Diagnostic
import FirmwareBundle.Toml.Scalar
/-!
# Items of a TOML document

A table may be written in several ways, and the way decides how it may be added to later. What a
path leads through is looked up or made on the way.

## Main definitions

* `FirmwareBundle.Toml.Key`, `FirmwareBundle.Toml.TableForm`, `FirmwareBundle.Toml.Item` — the parts
  of a document.
* `FirmwareBundle.Toml.Entries` — the entries of a table, in the order of the text.
* `FirmwareBundle.Toml.Entries.along?` — changes the entries that a path leads to.
-/

namespace FirmwareBundle.Toml

/-- A part of a key, and where it stands. -/
structure Key where
  name : String
  span : Span

/-- How a table came about: under a header, on the way to one, on the way of a dotted key, between
braces, or on the way of a dotted key between braces. -/
inductive TableForm where
  | header
  | implied
  | dotted
  | inline
  | inlineDotted
  deriving DecidableEq

/-- An item. Tables that are made on the way have no place of their own. -/
inductive Item where
  | scalar (value : Scalar) (span : Option Span)
  | array (items : List Item) (span : Option Span)
  | table (form : TableForm) (entries : List (Key × Item)) (span : Option Span)
  | tables (elements : List Item) (span : Option Span)

namespace Item

/-- Where an item stands. -/
def span : Item → Option Span
  | .scalar _ span | .array _ span | .table _ _ span | .tables _ span => span

/-- What is found in the place of an item. -/
def found : Item → Found
  | .scalar (.string s) _ => .string s
  | .scalar (.integer n) _ => .integer n
  | .scalar (.float x) _ => .float x
  | .scalar (.boolean b) _ => .boolean b
  | .scalar .datetime _ => .mapping
  | .array .. => .sequence
  | .table .. => .mapping
  | .tables .. => .sequence

/-- The array of the tables `elements` with one more. It reaches from the start of its first table
to the end of its last one. -/
def push (elements : List Item) (element : Item) : Item :=
  let elements := elements ++ [element]
  let first := elements.head?.bind span
  .tables elements (first.bind fun a => element.span.map fun b => ⟨a.first, b.last⟩)

end Item

/-! ## Entries -/

/-- The entries of a table. -/
abbrev Entries := List (Key × Item)

namespace Entries

/-- The item that `entries` have under `name`. -/
def get? (entries : Entries) (name : String) : Option Item :=
  (entries.find? (·.1.name == name)).map (·.2)

/-- Puts `item` in the place of the one under `name`. -/
def replace (entries : Entries) (name : String) (item : Item) : Entries :=
  entries.map fun entry => if entry.1.name = name then (entry.1, item) else entry

/-- Takes out what is under `name`. -/
def erase (entries : Entries) (name : String) : Entries :=
  entries.filter (·.1.name != name)

end Entries

/-! ## Paths -/

/-- What a path is written for: a header, a key with dots, or such a key between braces. -/
inductive Route where
  | header
  | dotted
  | inlineDotted
  deriving DecidableEq

/-- The form of the tables that are made on the way of a route. -/
def Route.makes : Route → TableForm
  | .header => .implied
  | .dotted => .dotted
  | .inlineDotted => .inlineDotted

/-- Whether a route may lead through a table, or end in it if `last` holds. Keys with dots add only
to tables that such keys have made. -/
def Route.allows (last : Bool) : Route → TableForm → Bool
  | .header, form => form == .header || form == .implied || form == .dotted
  | .dotted, form => form == .dotted || (form == .implied && !last)
  | .inlineDotted, form => form == .inlineDotted

/-- The entries that `route` leads to in an item, and how to put others there; `last` tells whether
it ends there. Of an array of tables the last one is meant. -/
def Route.enter? (route : Route) (last : Bool) : Item → Option (Entries × (Entries → Item))
  | .table form entries span =>
    if route.allows last form then some (entries, fun entries => .table form entries span) else none
  | .tables elements span =>
    match elements.getLast? with
    | some (.table form entries place) =>
      if route = .header ∨ (route = .dotted ∧ ¬ last) then
        some (entries, fun entries =>
          .tables (elements.dropLast ++ [.table form entries place]) span)
      else none
    | _ => none
  | _ => none

/-- Changes with `change` the entries that a path leads to, and makes the tables that are missing on
the way. The change may be refused, and gives something back if it is not. -/
def Entries.along? {α : Type} (route : Route) :
    List Key → (Entries → Option (α × Entries)) → Entries → Option (α × Entries)
  | [], change, entries => change entries
  | key :: path, change, entries =>
    match entries.get? key.name with
    | none =>
      (along? route path change []).map fun (x, inner) =>
        (x, entries ++ [(key, .table route.makes inner none)])
    | some item =>
      match route.enter? path.isEmpty item with
      | none => none
      | some (inner, put) =>
        (along? route path change inner).map fun (x, inner) =>
          (x, entries.replace key.name (put inner))

/-- Adds `item` under `key`, whose name must be new. -/
def Entries.add? (key : Key) (item : Item) (entries : Entries) : Option (Unit × Entries) :=
  if (entries.get? key.name).isSome then none else some ((), entries ++ [(key, item)])

/-- Adds `item` under `key` in the table that `path` leads to. -/
def Entries.insert? (route : Route) (path : List Key) (key : Key) (item : Item)
    (entries : Entries) : Option Entries :=
  (along? route path (add? key item) entries).map (·.2)

end FirmwareBundle.Toml
