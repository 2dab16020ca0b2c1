import FirmwareBundle.Toml.Document
import Mathlib.Data.List.Nodup
import Mathlib.Tactic.Common
/-!
# Tables without repeated names

However a document spells its tables, with headers, with dotted keys or between braces, none of them
ends up with two entries of one name: what a path leads to is looked up before anything is made, and
a name that is taken is refused.

## Main definitions

* `FirmwareBundle.Toml.Item.Distinct` — no table in an item has a name twice.
* `FirmwareBundle.Toml.Keeps` — a change of entries that repeats no name.

## Main results

* `FirmwareBundle.Toml.Keeps.along` — a change at the end of a path.
* `FirmwareBundle.Toml.readsDistinct` — the values between brackets and braces.
* `FirmwareBundle.Toml.Entries.ofText?_distinct` — the entries of a document.
-/

namespace FirmwareBundle.Toml

/-! ## Items and entries -/

/-- No table in the item has a name twice, however deep it is nested. -/
inductive Item.Distinct : Item → Prop where
  | scalar {value : Scalar} {span : Option Span} : Distinct (.scalar value span)
  | array {items : List Item} {span : Option Span}
      (items_distinct : ∀ item ∈ items, Distinct item) : Distinct (.array items span)
  | table {form : TableForm} {entries : List (Key × Item)} {span : Option Span}
      (names_nodup : (entries.map (·.1.name)).Nodup)
      (items_distinct : ∀ entry ∈ entries, Distinct entry.2) : Distinct (.table form entries span)
  | tables {elements : List Item} {span : Option Span}
      (elements_distinct : ∀ element ∈ elements, Distinct element) :
      Distinct (.tables elements span)

/-- The `entries` of a table have different names, and so have those of the tables in them. -/
structure Entries.Distinct (entries : Entries) : Prop where
  names_nodup : (entries.map (·.1.name)).Nodup
  items_distinct : ∀ entry ∈ entries, entry.2.Distinct

variable {entries : Entries} {name : String} {key : Key} {item : Item}

/-- A table repeats no name if its `entries` do not, whatever its `form` and `span`. -/
lemma Item.distinct_table_iff {form : TableForm} {span : Option Span} :
    (Item.table form entries span).Distinct ↔ entries.Distinct :=
  ⟨fun | .table hnames hitems => ⟨hnames, hitems⟩, fun h => .table h.1 h.2⟩

namespace Entries

/-- There is no item of `name` if no entry has it. -/
lemma get?_eq_none_iff : entries.get? name = none ↔ name ∉ entries.map (·.1.name) := by
  simp [get?]

/-- The `item` of `name` stands in an entry whose key has that name. -/
lemma exists_mem_of_get?_eq_some (h : entries.get? name = some item) :
    ∃ key, (key, item) ∈ entries ∧ key.name = name := by
  obtain ⟨⟨key, found⟩, hfind, rfl⟩ := Option.map_eq_some_iff.1 h
  exact ⟨key, List.mem_of_find?_eq_some hfind, by simpa using List.find?_some hfind⟩

/-- The first `entry` is looked at before the other `entries`. -/
lemma get?_cons (entry : Key × Item) (entries : Entries) (name : String) :
    Entries.get? (entry :: entries) name =
      if entry.1.name = name then some entry.2 else entries.get? name := by
  by_cases h : entry.1.name = name <;> simp [get?, h]

namespace Distinct

/-- A table without entries repeats no name. -/
lemma nil : Distinct [] :=
  ⟨List.nodup_nil, by simp⟩

/-- Without its first `entry` a table repeats no name either. -/
lemma of_cons {entry : Key × Item} (h : Distinct (entry :: entries)) : entries.Distinct :=
  ⟨(List.nodup_cons.1 h.names_nodup).2, fun _ hentry =>
    h.items_distinct _ (List.mem_cons_of_mem _ hentry)⟩

/-- The `item` of `name` is one without repeated names. -/
lemma get? (h : entries.Distinct) (hget : entries.get? name = some item) : item.Distinct := by
  obtain ⟨key, hmem, -⟩ := exists_mem_of_get?_eq_some hget
  exact h.items_distinct _ hmem

/-- An entry with a new name, that of `key`, is added behind `entries`. -/
private lemma concat (h : entries.Distinct) (hnew : entries.get? key.name = none)
    (hitem : item.Distinct) : Distinct (entries ++ [(key, item)]) where
  names_nodup := by
    rw [List.map_append, List.map_singleton, ← List.concat_eq_append, List.nodup_concat]
    exact ⟨get?_eq_none_iff.1 hnew, h.names_nodup⟩
  items_distinct := by
    intro entry hentry
    rcases List.mem_append.1 hentry with hold | hlast
    · exact h.items_distinct entry hold
    · rw [List.mem_singleton.1 hlast]
      exact hitem

/-- The `item` is put in the place of the one of `name`. The names of the entries stay the same. -/
lemma replace (h : entries.Distinct) (hitem : item.Distinct) :
    (entries.replace name item).Distinct where
  names_nodup := by
    have hnames : (entries.replace name item).map (·.1.name) = entries.map (·.1.name) := by
      rw [Entries.replace, List.map_map]
      refine List.map_congr_left fun entry _ => ?_
      dsimp only [Function.comp_apply]
      split <;> rfl
    rw [hnames]
    exact h.names_nodup
  items_distinct := by
    intro entry hentry
    obtain ⟨old, hold, rfl⟩ := List.mem_map.1 hentry
    split
    · exact hitem
    · exact h.items_distinct old hold

/-- The entry of `name` is taken out, and the names that are left are some of those before. -/
lemma erase (h : entries.Distinct) : (entries.erase name).Distinct where
  names_nodup := h.names_nodup.sublist (List.filter_sublist.map _)
  items_distinct := fun entry hentry => h.items_distinct entry (List.mem_filter.1 hentry).1

end Distinct

end Entries

/-! ## Changes at the end of a path -/

/-- The `change` of entries repeats no name in them, and what it gives back is of a `kind`. -/
def Keeps {α : Type} (kind : α → Prop) (change : Entries → Option (α × Entries)) : Prop :=
  ∀ ⦃entries x changed⦄, Entries.Distinct entries → change entries = some (x, changed) →
    kind x ∧ Entries.Distinct changed

/-- What `route` enters in `item` repeats no name, nor does the item with other such entries put
there.

**Proof sketch.** Only a table and an array of tables can be entered. Of the latter the last element
is, and the elements in front of it stay as they are. -/
private lemma Route.distinct_of_enter? {route : Route} {last : Bool} {inner : Entries}
    {put : Entries → Item} (hitem : item.Distinct)
    (henter : route.enter? last item = some (inner, put)) :
    inner.Distinct ∧ ∀ changed : Entries, changed.Distinct → (put changed).Distinct := by
  cases hitem with
  | scalar => simp [enter?] at henter
  | array => simp [enter?] at henter
  | table hnames hitems =>
    simp only [enter?, Option.ite_none_right_eq_some, Option.some.injEq, Prod.mk.injEq] at henter
    obtain ⟨-, rfl, rfl⟩ := henter
    exact ⟨⟨hnames, hitems⟩, fun changed h => Item.distinct_table_iff.2 h⟩
  | @tables elements span helements =>
    rw [enter?] at henter
    split at henter
    · rename_i form held place hlast
      obtain ⟨-, henter⟩ := Option.ite_none_right_eq_some.1 henter
      obtain ⟨rfl, rfl⟩ := Prod.mk.inj (Option.some.inj henter)
      refine ⟨Item.distinct_table_iff.1 (helements _ (List.mem_of_getLast? hlast)),
        fun changed h => .tables fun element helement => ?_⟩
      rcases List.mem_append.1 helement with hfront | hback
      · exact helements element ((List.dropLast_sublist elements).subset hfront)
      · rw [List.mem_singleton.1 hback]
        exact Item.distinct_table_iff.2 h
    · cases henter

/-- **A change at the end of a path** repeats no name if it repeats none where it is made.

**Proof sketch.** Induction on `path`. A table that is missing is made under a name that was looked
up in vain (`Entries.Distinct.concat`), and one that is there is put back in its place
(`Entries.Distinct.replace`) with other entries (`Route.distinct_of_enter?`). -/
theorem Keeps.along {α : Type} {kind : α → Prop} {change : Entries → Option (α × Entries)}
    (h : Keeps kind change) (route : Route) (path : List Key) :
    Keeps kind (Entries.along? route path change) := by
  induction path with
  | nil => exact h
  | cons key path ih =>
    intro entries x changed hentries hchange
    rw [Entries.along?] at hchange
    split at hchange
    · rename_i hnew
      obtain ⟨⟨y, inner⟩, hinner, hxy⟩ := Option.map_eq_some_iff.1 hchange
      obtain ⟨rfl, rfl⟩ := Prod.mk.inj hxy
      obtain ⟨hkind, hdistinct⟩ := ih .nil hinner
      exact ⟨hkind, hentries.concat hnew (Item.distinct_table_iff.2 hdistinct)⟩
    · rename_i item hitem
      split at hchange
      · cases hchange
      · rename_i inner put henter
        obtain ⟨⟨y, other⟩, hother, hxy⟩ := Option.map_eq_some_iff.1 hchange
        obtain ⟨rfl, rfl⟩ := Prod.mk.inj hxy
        obtain ⟨hdistinct, hput⟩ := Route.distinct_of_enter? (hentries.get? hitem) henter
        obtain ⟨hkind, hchanged⟩ := ih hdistinct hother
        exact ⟨hkind, hentries.replace (hput _ hchanged)⟩

/-- Adding `item` under `key` repeats no name: it is refused if the name is taken. -/
private lemma keeps_add? (key : Key) (hitem : item.Distinct) :
    Keeps (fun _ => True) (Entries.add? key item) := by
  intro entries x changed hentries hadd
  rw [Entries.add?] at hadd
  split at hadd
  · cases hadd
  · rename_i hnew
    obtain ⟨-, rfl⟩ := Prod.mk.inj (Option.some.inj hadd)
    exact ⟨trivial, hentries.concat (by simpa using hnew) hitem⟩

/-- An `item` inserted at the end of `path` repeats no name. -/
lemma Entries.Distinct.insert? {route : Route} {path : List Key} {changed : Entries}
    (h : entries.Distinct) (hitem : item.Distinct)
    (hinsert : entries.insert? route path key item = some changed) : changed.Distinct := by
  obtain ⟨⟨x, other⟩, hadd, rfl⟩ := Option.map_eq_some_iff.1 hinsert
  exact ((keeps_add? key hitem).along route path h hadd).2

/-! ## Values -/

/-- The table of the entries `written` between braces repeats no name if their values do not.

**Proof sketch.** Induction on the entries, each of which is inserted under its path
(`Entries.Distinct.insert?`). -/
private lemma inlineEntries?_distinct {written : List InlineEntry} {entries : Entries}
    (hitems : ∀ entry ∈ written, entry.2.2.Distinct) (h : inlineEntries? written = some entries) :
    entries.Distinct := by
  have hfold : ∀ (written : List InlineEntry) (start : Entries), start.Distinct →
      (∀ entry ∈ written, entry.2.2.Distinct) →
      written.foldlM (fun entries entry =>
        entries.insert? .inlineDotted entry.1 entry.2.1 entry.2.2) start = some entries →
      entries.Distinct := by
    intro written
    induction written with
    | nil =>
      intro start hstart _ hfold
      obtain rfl := Option.some.inj hfold
      exact hstart
    | cons entry written ih =>
      intro start hstart hitems hfold
      rw [List.foldlM_cons] at hfold
      obtain ⟨next, hnext, hrest⟩ := Option.bind_eq_some_iff.1 hfold
      rw [List.forall_mem_cons] at hitems
      exact ih next (hstart.insert? hitems.1 hnext) hitems.2 hrest
  exact hfold written [] .nil hitems h

/-- What is read with some `fuel` repeats no name: a value, the items of an array, and the values of
the entries between braces. -/
structure ReadsDistinct (fuel : Nat) : Prop where
  value : ∀ {depth here item next}, valueWithin? depth fuel here = some (item, next) →
    item.Distinct
  array : ∀ {depth here items next}, arrayItems? depth fuel here = some (items, next) →
    ∀ item ∈ items, item.Distinct
  table : ∀ {depth here written next}, tableEntries? depth fuel here = some (written, next) →
    ∀ entry ∈ written, entry.2.2.Distinct

namespace ReadsDistinct

variable {fuel depth : Nat} {here next : Cursor}

/-- A value repeats no name if what stands between its brackets or braces, which is read with less
fuel, does not. The entries between braces are a table by `inlineEntries?_distinct`, and a scalar
has no names. -/
lemma value_succ (h : ReadsDistinct fuel)
    (hread : valueWithin? depth (fuel + 1) here = some (item, next)) : item.Distinct := by
  have hinline : ∀ {read : Option (List InlineEntry × Cursor)},
      (∀ {written after}, read = some (written, after) →
        ∀ entry ∈ written, entry.2.2.Distinct) →
      (read.bind fun found => (inlineEntries? found.1).bind fun entries =>
        some (Item.table .inline entries (some ⟨here.offset, found.2.offset⟩), found.2)) =
          some (item, next) → item.Distinct := by
    intro read hwritten hitem
    obtain ⟨⟨written, after⟩, hsome, hitem⟩ := Option.bind_eq_some_iff.1 hitem
    obtain ⟨entries, hentries, hitem⟩ := Option.bind_eq_some_iff.1 hitem
    obtain ⟨rfl, -⟩ := Prod.mk.inj (Option.some.inj hitem)
    exact Item.distinct_table_iff.2 (inlineEntries?_distinct (hwritten hsome) hentries)
  rw [valueWithin?] at hread
  split at hread
  · obtain ⟨-, hread⟩ := Option.ite_none_right_eq_some.1 hread
    obtain ⟨⟨items, after⟩, hitems, hitem⟩ := Option.bind_eq_some_iff.1 hread
    obtain ⟨rfl, -⟩ := Prod.mk.inj (Option.some.inj hitem)
    exact .array (h.array hitems)
  · obtain ⟨-, hread⟩ := Option.ite_none_right_eq_some.1 hread
    dsimp only at hread
    split at hread
    · refine hinline (fun hwritten => ?_) hread
      obtain ⟨rfl, -⟩ := Prod.mk.inj (Option.some.inj hwritten)
      simp
    · exact hinline h.table hread
  · obtain ⟨⟨value, after⟩, -, hitem⟩ := Option.map_eq_some_iff.1 hread
    obtain ⟨rfl, -⟩ := Prod.mk.inj hitem
    exact .scalar

/-- The `items` of an array repeat no name if the first of them and the others do not. -/
lemma array_succ (h : ReadsDistinct fuel) {items : List Item}
    (hread : arrayItems? depth (fuel + 1) here = some (items, next)) :
    ∀ item ∈ items, item.Distinct := by
  rw [arrayItems?] at hread
  obtain ⟨start, -, hread⟩ := Option.bind_eq_some_iff.1 hread
  split at hread
  · obtain ⟨rfl, -⟩ := Prod.mk.inj (Option.some.inj hread)
    simp
  · obtain ⟨⟨item, after⟩, hitem, hread⟩ := Option.bind_eq_some_iff.1 hread
    obtain ⟨gap, -, hread⟩ := Option.bind_eq_some_iff.1 hread
    split at hread
    · obtain ⟨⟨rest, last⟩, hrest, hread⟩ := Option.bind_eq_some_iff.1 hread
      obtain ⟨rfl, -⟩ := Prod.mk.inj (Option.some.inj hread)
      exact List.forall_mem_cons.2 ⟨h.value hitem, h.array hrest⟩
    · obtain ⟨last, -, hread⟩ := Option.map_eq_some_iff.1 hread
      obtain ⟨rfl, -⟩ := Prod.mk.inj hread
      simpa using h.value hitem

/-- The entries `written` between braces repeat no name in their values if the first and the others
do not. -/
lemma table_succ (h : ReadsDistinct fuel) {written : List InlineEntry}
    (hread : tableEntries? depth (fuel + 1) here = some (written, next)) :
    ∀ entry ∈ written, entry.2.2.Distinct := by
  rw [tableEntries?] at hread
  obtain ⟨⟨parents, key, after⟩, -, hread⟩ := Option.bind_eq_some_iff.1 hread
  obtain ⟨equals, -, hread⟩ := Option.bind_eq_some_iff.1 hread
  obtain ⟨⟨item, after⟩, hitem, hread⟩ := Option.bind_eq_some_iff.1 hread
  dsimp only at hread
  split at hread
  · obtain ⟨⟨rest, last⟩, hrest, hread⟩ := Option.bind_eq_some_iff.1 hread
    obtain ⟨rfl, -⟩ := Prod.mk.inj (Option.some.inj hread)
    exact List.forall_mem_cons.2 ⟨h.value hitem, h.table hrest⟩
  · obtain ⟨last, -, hread⟩ := Option.map_eq_some_iff.1 hread
    obtain ⟨rfl, -⟩ := Prod.mk.inj hread
    simpa using h.value hitem

end ReadsDistinct

/-- **No value repeats a name**, however deep it is nested. Induction on `fuel`, with one lemma for
each of the three readers. -/
theorem readsDistinct (fuel : Nat) : ReadsDistinct fuel := by
  induction fuel with
  | zero => constructor <;> simp [valueWithin?, arrayItems?, tableEntries?]
  | succ fuel ih => exact ⟨ih.value_succ, ih.array_succ, ih.table_succ⟩

/-! ## Documents -/

/-- The closed tables of the draft `d` repeat no name, nor does the open one. -/
structure Draft.Distinct (d : Draft) : Prop where
  closed : d.closed.Distinct
  entries : d.entries.Distinct

namespace Draft.Distinct

variable {d d' : Draft} {parents : List Key} {span : Span}

/-- The draft before the first statement repeats no name. -/
lemma empty : Draft.empty.Distinct :=
  ⟨.nil, .nil⟩

/-- The open table is put under its path.

**Proof sketch.** It is the root, a table of its own (`Entries.Distinct.insert?`), or the last
element of an array of tables. The last is a change at the end of a path (`Keeps.along`), where the
array is put back with one element more. -/
lemma close? (h : d.Distinct) (hclose : d.close? = some entries) : entries.Distinct := by
  have hitem : d.item.Distinct := Item.distinct_table_iff.2 h.entries
  rw [Draft.close?] at hclose
  split at hclose
  · obtain rfl := Option.some.inj hclose
    exact h.entries
  · exact h.closed.insert? hitem hclose
  · rename_i parents key hplace
    obtain ⟨⟨x, changed⟩, halong, rfl⟩ := Option.map_eq_some_iff.1 hclose
    refine (Keeps.along (?_ : Keeps (fun _ => True) _) .header parents h.closed halong).2
    intro entries x changed hentries hpush
    dsimp only at hpush
    split at hpush
    · rename_i elements place hget
      obtain ⟨-, rfl⟩ := Prod.mk.inj (Option.some.inj hpush)
      refine ⟨trivial, hentries.replace (.tables fun element helement => ?_)⟩
      rcases List.mem_append.1 helement with hfront | hlast
      · cases hentries.get? hget with
        | tables helements => exact helements element hfront
      · rw [List.mem_singleton.1 hlast]
        exact hitem
    · cases hpush

/-- A header opens the table `key` under `parents`. What an implied table of that name holds is
taken over by it.

**Proof sketch.** The draft is closed first (`Draft.Distinct.close?`). Taking out what is held under
the name is a change at the end of a path (`Keeps.along`), and what is taken out repeats no name
either. -/
lemma openTable? (h : d.Distinct) (hopen : d.openTable? parents key span = some d') :
    d'.Distinct := by
  obtain ⟨closed, hclosed, hopen⟩ := Option.bind_eq_some_iff.1 hopen
  obtain ⟨⟨inner, changed⟩, halong, hopen⟩ := Option.bind_eq_some_iff.1 hopen
  obtain rfl := Option.some.inj hopen
  have htake :=
    Keeps.along (?_ : Keeps Entries.Distinct _) .header parents (h.close? hclosed) halong
  · exact ⟨htake.2, htake.1⟩
  intro entries inner changed hentries htake
  dsimp only at htake
  split at htake
  · obtain ⟨rfl, rfl⟩ := Prod.mk.inj (Option.some.inj htake)
    exact ⟨.nil, hentries⟩
  · rename_i inner place hget
    obtain ⟨rfl, rfl⟩ := Prod.mk.inj (Option.some.inj htake)
    exact ⟨Item.distinct_table_iff.1 (hentries.get? hget), hentries.erase⟩
  · cases htake

/-- A header opens another element of the array of tables `key`, which is made if it is not there.

**Proof sketch.** The draft is closed first (`Draft.Distinct.close?`). Making the array is a change
at the end of a path (`Keeps.along`), under a name that was looked up in vain. -/
lemma openElement? (h : d.Distinct) (hopen : d.openElement? parents key span = some d') :
    d'.Distinct := by
  obtain ⟨closed, hclosed, hopen⟩ := Option.bind_eq_some_iff.1 hopen
  obtain ⟨⟨x, changed⟩, halong, hopen⟩ := Option.bind_eq_some_iff.1 hopen
  obtain rfl := Option.some.inj hopen
  refine ⟨(Keeps.along (?_ : Keeps (fun _ => True) _) .header parents (h.close? hclosed) halong).2,
    .nil⟩
  intro entries x changed hentries hmake
  dsimp only at hmake
  split at hmake
  · rename_i hnew
    obtain ⟨-, rfl⟩ := Prod.mk.inj (Option.some.inj hmake)
    exact ⟨trivial, hentries.concat hnew (.tables (by simp))⟩
  · obtain ⟨-, rfl⟩ := Prod.mk.inj (Option.some.inj hmake)
    exact ⟨trivial, hentries⟩
  · cases hmake

/-- The `item` is added to the open table. -/
lemma insert? (h : d.Distinct) (hitem : item.Distinct)
    (hinsert : d.insert? parents key item = some d') : d'.Distinct := by
  obtain ⟨entries, hentries, hinsert⟩ := Option.bind_eq_some_iff.1 hinsert
  obtain rfl := Option.some.inj hinsert
  exact ⟨h.closed, h.entries.insert? hitem hentries⟩

variable {here next : Cursor}

/-- A header is read, and a table or an element of an array of tables is opened
(`Draft.Distinct.openTable?`, `Draft.Distinct.openElement?`). -/
lemma header? (h : d.Distinct) (hread : Toml.header? d here = some (d', next)) :
    d'.Distinct := by
  obtain ⟨inside, -, hread⟩ := Option.bind_eq_some_iff.1 hread
  split at hread
  · obtain ⟨⟨parents, key, after⟩, -, hread⟩ := Option.bind_eq_some_iff.1 hread
    obtain ⟨closing, -, hread⟩ := Option.bind_eq_some_iff.1 hread
    obtain ⟨opened, hopened, hread⟩ := Option.bind_eq_some_iff.1 hread
    obtain ⟨line, -, hread⟩ := Option.bind_eq_some_iff.1 hread
    obtain ⟨rfl, -⟩ := Prod.mk.inj (Option.some.inj hread)
    exact h.openElement? hopened
  · obtain ⟨⟨parents, key, after⟩, -, hread⟩ := Option.bind_eq_some_iff.1 hread
    obtain ⟨closing, -, hread⟩ := Option.bind_eq_some_iff.1 hread
    obtain ⟨opened, hopened, hread⟩ := Option.bind_eq_some_iff.1 hread
    obtain ⟨line, -, hread⟩ := Option.bind_eq_some_iff.1 hread
    obtain ⟨rfl, -⟩ := Prod.mk.inj (Option.some.inj hread)
    exact h.openTable? hopened

/-- An entry is read and added to the open table. By `readsDistinct` its value repeats no name. -/
lemma entry? (h : d.Distinct) (hread : Toml.entry? d here = some (d', next)) : d'.Distinct := by
  obtain ⟨⟨parents, key, after⟩, -, hread⟩ := Option.bind_eq_some_iff.1 hread
  obtain ⟨equals, -, hread⟩ := Option.bind_eq_some_iff.1 hread
  obtain ⟨⟨item, after⟩, hitem, hread⟩ := Option.bind_eq_some_iff.1 hread
  obtain ⟨added, hadded, hread⟩ := Option.bind_eq_some_iff.1 hread
  obtain ⟨line, -, hread⟩ := Option.bind_eq_some_iff.1 hread
  obtain ⟨rfl, -⟩ := Prod.mk.inj (Option.some.inj hread)
  exact h.insert? ((readsDistinct _).value hitem) hadded

/-- **A line** is read: nothing, a header, or an entry. -/
theorem statement? (h : d.Distinct) (hread : Toml.statement? d here = some (d', next)) :
    d'.Distinct := by
  rw [Toml.statement?] at hread
  split at hread
  iterate 3
    obtain ⟨line, -, hline⟩ := Option.map_eq_some_iff.1 hread
    obtain ⟨rfl, -⟩ := Prod.mk.inj hline
    exact h
  · exact h.header? hread
  · exact h.entry? hread

/-- **The lines** are read one after the other. -/
theorem statements? {fuel : Nat} (h : d.Distinct)
    (hread : Toml.statements? fuel d here = some d') : d'.Distinct := by
  induction fuel generalizing d here with
  | zero => cases hread
  | succ fuel ih =>
    rw [Toml.statements?] at hread
    split at hread
    · obtain rfl := Option.some.inj hread
      exact h
    · split at hread
      · cases hread
      · rename_i hstatement
        exact ih (h.statement? hstatement) hread

end Draft.Distinct

/-- **A document repeats no name**: its `entries` have different names, and so have those of every
table in it.

**Proof sketch.** Nothing has been read at the start (`Draft.Distinct.empty`), each line keeps the
draft distinct (`Draft.Distinct.statements?`), and the last open table is closed at the end
(`Draft.Distinct.close?`). -/
theorem Entries.ofText?_distinct {text : String} (h : ofText? text = some entries) :
    entries.Distinct := by
  obtain ⟨d, hread, hclose⟩ := Option.bind_eq_some_iff.1 h
  exact (Draft.Distinct.empty.statements? hread).close? hclose

end FirmwareBundle.Toml
