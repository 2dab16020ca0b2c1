import FirmwareBundle.Proofs.HeaderShapes
/-!
# Spellings of a header

A header can be spelled in many ways: the entries of its mappings can stand in any order, there can
be entries that nothing reads, and the length of a payload has two names. All spellings of a header
are read alike, and those that cannot be read all fail.

The entries of a mapping are read one after the other into a draft, so it has to be seen that two
entries can change places. By `Decode.Reads` an entry fills the fields that its key names and leaves
the others as they are. Where both entries can be put, they fill different fields, and the fields
tell drafts apart.

## Main definitions

* `FirmwareBundle.Agree` — two attempts have the same results.
* `FirmwareBundle.Decode.Separates` — the fields of a draft tell it from any other.
* `FirmwareBundle.Yaml.Respelled` — the entries of a mapping are spelled in another way.
* `FirmwareBundle.Yaml.Value.RespelledHeader` — a header is spelled in another way.
* `FirmwareBundle.Yaml.Value.IsEntryOf` — a value stands in a table of a header.

## Main results

* `FirmwareBundle.Decode.Reads.entry_comm` — two entries can change places.
* `FirmwareBundle.Decode.agree_record` — a mapping is read alike in all its spellings.
* `FirmwareBundle.Decode.spec_ne_ok_of_hasEntry` — the length of a payload is given once.
* `FirmwareBundle.ManifestDocument.ofValue_spelling` — headers are read alike in all their
  spellings.
-/

namespace FirmwareBundle

open Yaml

/-! ## Attempts that agree -/

/-- The attempts `x` and `y` have the same results; where they fail, they may fail for different
reasons. -/
def Agree {ε α : Type} (x y : Except ε α) : Prop :=
  ∀ a, x = .ok a ↔ y = .ok a

namespace Agree

variable {ε α β : Type} {x y z : Except ε α}

/-- An attempt agrees with itself. -/
lemma refl (x : Except ε α) : Agree x x :=
  fun _ => Iff.rfl

/-- Agreement goes both ways. -/
lemma symm (h : Agree x y) : Agree y x :=
  fun a => (h a).symm

/-- Agreement is handed on. -/
lemma trans (hxy : Agree x y) (hyz : Agree y z) : Agree x z :=
  fun a => (hxy a).trans (hyz a)

/-- Attempts `x` and `y` that agree can be followed by attempts that agree. -/
lemma bind {f g : α → Except ε β} (h : Agree x y) (hfg : ∀ a, Agree (f a) (g a)) :
    Agree (x >>= f) (y >>= g) := by
  intro b
  rw [bind_eq_ok_iff, bind_eq_ok_iff]
  exact exists_congr fun a => and_congr (h a) (hfg a b)

/-- What `f` makes of the results agrees too. -/
lemma map (f : α → β) (h : Agree x y) : Agree (x.map f) (y.map f) := by
  have hmap : ∀ x : Except ε α, x.map f = x >>= fun a => .ok (f a) := by
    intro x
    cases x <;> rfl
  rw [hmap, hmap]
  exact h.bind fun a => refl _

/-- The lists `xs` and `ys` whose items agree one by one agree. -/
lemma mapM {γ : Type} {f : γ → Except ε α} {xs ys : List γ}
    (h : List.Forall₂ (fun x y => Agree (f x) (f y)) xs ys) : Agree (xs.mapM f) (ys.mapM f) := by
  induction h with
  | nil => exact refl _
  | cons hxy _ ih =>
    rw [List.mapM_cons, List.mapM_cons]
    exact hxy.bind fun _ => ih.bind fun _ => refl _

/-- If any two steps of `f` can change places, steps can be taken in any order.

**Proof sketch.** Induction on the permutation. Behind a first step that is the same on both sides
the other steps agree (`Agree.bind`), and `hcomm` is for two steps that change places. -/
private lemma foldlM_perm {δ γ : Type} {f : δ → γ → Except ε δ}
    (hcomm : ∀ d x y, Agree (f d x >>= (f · y)) (f d y >>= (f · x))) {xs ys : List γ}
    (h : xs.Perm ys) (d : δ) : Agree (xs.foldlM f d) (ys.foldlM f d) := by
  induction h generalizing d with
  | nil => exact refl _
  | cons x _ ih =>
    rw [List.foldlM_cons, List.foldlM_cons]
    exact (refl _).bind ih
  | swap x y xs =>
    simp only [List.foldlM_cons]
    rw [← bind_assoc, ← bind_assoc]
    exact (hcomm d y x).bind fun _ => refl _
  | trans _ _ ih ih' => exact (ih d).trans (ih' d)

end Agree

/-! ## The order of entries -/

namespace Decode

variable {δ : Type} {put : δ → String → Value → Decoded δ} {fields : List (Field δ)}

/-- The `fields` of a draft tell it from any other. -/
def Separates (fields : List (Field δ)) : Prop :=
  ∀ d d' : δ, (∀ field ∈ fields, field.get d = field.get d') → d = d'

/-- The entry `e` is put into a draft if its key is a text. -/
lemma entry_eq_ok_iff {draft last : δ} {e : Value × Value} :
    entry put draft e = .ok last ↔
      ∃ key, textAs .fieldName e.1 = .ok key ∧ put draft key e.2 = .ok last := by
  rw [entry, bind_eq_ok_iff]

/-- Two values that were put into `draft`, first `value` and then `value'`, can be put into it in
the other order.

**Proof sketch.** The second value was put after the first, so the fields that the two keys name are
different, and those of `key'` were open from the beginning. So the second value can be put first,
and the first one after it. Either way each field has what was read for it, and the fields tell
drafts apart (`Decode.Separates`). -/
private lemma Reads.put_comm (h : Reads put fields) (hfields : Separates fields)
    {draft next last : δ} {key key' : String} {value value' : Value}
    (hput : put draft key value = .ok next) (hput' : put next key' value' = .ok last) :
    ∃ next', put draft key' value' = .ok next' ∧ put next' key value = .ok last := by
  have hdisjoint : ∀ field ∈ fields, key ∈ field.names → key' ∉ field.names := by
    intro field hfield hkey hkey'
    obtain ⟨-, content, -, hfilled⟩ := h.own hput field hfield hkey
    rw [(h.own hput' field hfield hkey').1] at hfilled
    cases hfilled
  obtain ⟨next', hnext'⟩ : ∃ next', put draft key' value' = .ok next' := by
    apply h.exists_put
    intro field hfield hkey'
    have hkey : key ∉ field.names := fun hkey => hdisjoint field hfield hkey hkey'
    obtain ⟨hopen, content, hread, -⟩ := h.own hput' field hfield hkey'
    exact ⟨(h.other hput field hfield hkey).symm.trans hopen, content, hread⟩
  obtain ⟨last', hlast'⟩ : ∃ last', put next' key value = .ok last' := by
    apply h.exists_put
    intro field hfield hkey
    obtain ⟨hopen, content, hread, -⟩ := h.own hput field hfield hkey
    have hkey' := hdisjoint field hfield hkey
    exact ⟨(h.other hnext' field hfield hkey').trans hopen, content, hread⟩
  have hlast : last' = last := by
    apply hfields
    intro field hfield
    by_cases hkey : key ∈ field.names
    · have hkey' := hdisjoint field hfield hkey
      obtain ⟨-, content, hread, hfilled⟩ := h.own hput field hfield hkey
      obtain ⟨-, content', hread', hfilled'⟩ := h.own hlast' field hfield hkey
      obtain rfl := Except.ok.inj (hread.symm.trans hread')
      rw [hfilled', h.other hput' field hfield hkey', hfilled]
    · rw [h.other hlast' field hfield hkey]
      by_cases hkey' : key' ∈ field.names
      · obtain ⟨-, content, hread, hfilled⟩ := h.own hput' field hfield hkey'
        obtain ⟨-, content', hread', hfilled'⟩ := h.own hnext' field hfield hkey'
        obtain rfl := Except.ok.inj (hread.symm.trans hread')
        rw [hfilled, hfilled']
      · rw [h.other hnext' field hfield hkey', h.other hput' field hfield hkey',
          h.other hput field hfield hkey]
  exact ⟨next', hnext', hlast ▸ hlast'⟩

/-- **Two entries can change places.** If `e` and `e'` can be put into `draft` in one order, then
also in the other, with the same result (`Decode.Reads.put_comm`). -/
theorem Reads.entry_comm (h : Reads put fields) (hfields : Separates fields) (draft : δ)
    (e e' : Value × Value) :
    Agree (entry put draft e >>= (entry put · e')) (entry put draft e' >>= (entry put · e)) := by
  have hswap : ∀ e e' last, entry put draft e >>= (entry put · e') = .ok last →
      entry put draft e' >>= (entry put · e) = .ok last := by
    intro e e' last hread
    obtain ⟨next, hnext, hlast⟩ := bind_eq_ok_iff.1 hread
    obtain ⟨key, hkey, hput⟩ := entry_eq_ok_iff.1 hnext
    obtain ⟨key', hkey', hput'⟩ := entry_eq_ok_iff.1 hlast
    obtain ⟨next', hnext', hlast'⟩ := h.put_comm hfields hput hput'
    exact bind_eq_ok_iff.2 ⟨next', entry_eq_ok_iff.2 ⟨key', hkey', hnext'⟩,
      entry_eq_ok_iff.2 ⟨key, hkey, hlast'⟩⟩
  exact fun last => ⟨hswap e e' last, hswap e' e last⟩

/-- The value of an entry `e` that was read can be read for the `field` that its key names. The
entry can be moved to the front (`Decode.Reads.entry_comm`). -/
private lemma Reads.exists_read_of_mem (h : Reads put fields) (hfields : Separates fields)
    {entries : List (Value × Value)} {draft last : δ}
    (hread : entries.foldlM (entry put) draft = .ok last) {e : Value × Value} (he : e ∈ entries)
    {key : String} (hkey : e.1.untagged = .string key) {field : Field δ} (hfield : field ∈ fields)
    (hname : key ∈ field.names) : ∃ content, field.read e.2 = .ok content := by
  classical
  have hfirst := (Agree.foldlM_perm (h.entry_comm hfields) (List.perm_cons_erase he) draft last).1
    hread
  rw [List.foldlM_cons] at hfirst
  obtain ⟨next, hnext, -⟩ := bind_eq_ok_iff.1 hfirst
  obtain ⟨key', hkey', hput⟩ := entry_eq_ok_iff.1 hnext
  rw [textAs, hkey] at hkey'
  obtain rfl := Except.ok.inj hkey'
  obtain ⟨-, content, hcontent, -⟩ := h.own hput field hfield hname
  exact ⟨content, hcontent⟩

/-- No two entries `e` and `e'` that are read name the same `field`.

**Proof sketch.** If they are different, both can be moved to the front (`Decode.Reads.entry_comm`).
There the first fills the field, which must be open for the second. -/
private lemma Reads.eq_of_mem_of_mem (h : Reads put fields) (hfields : Separates fields)
    {entries : List (Value × Value)} {draft last : δ}
    (hread : entries.foldlM (entry put) draft = .ok last) {e e' : Value × Value} (he : e ∈ entries)
    (he' : e' ∈ entries) {key key' : String} (hkey : e.1.untagged = .string key)
    (hkey' : e'.1.untagged = .string key') {field : Field δ} (hfield : field ∈ fields)
    (hname : key ∈ field.names) (hname' : key' ∈ field.names) : e = e' := by
  classical
  by_contra hne
  have hrest : e' ∈ entries.erase e := (List.mem_erase_of_ne (Ne.symm hne)).2 he'
  have hperm : entries.Perm (e :: e' :: (entries.erase e).erase e') :=
    (List.perm_cons_erase he).trans (.cons e (List.perm_cons_erase hrest))
  have hfirst := (Agree.foldlM_perm (h.entry_comm hfields) hperm draft last).1 hread
  rw [List.foldlM_cons] at hfirst
  obtain ⟨next, hnext, hfirst⟩ := bind_eq_ok_iff.1 hfirst
  rw [List.foldlM_cons] at hfirst
  obtain ⟨next', hnext', -⟩ := bind_eq_ok_iff.1 hfirst
  obtain ⟨name, htext, hput⟩ := entry_eq_ok_iff.1 hnext
  obtain ⟨name', htext', hput'⟩ := entry_eq_ok_iff.1 hnext'
  rw [textAs, hkey] at htext
  rw [textAs, hkey'] at htext'
  obtain rfl := Except.ok.inj htext
  obtain rfl := Except.ok.inj htext'
  obtain ⟨-, content, -, hfilled⟩ := h.own hput field hfield hname
  rw [(h.own hput' field hfield hname').1] at hfilled
  cases hfilled

/-! ## The records of headers -/

/-- The field of an entry for the length of the payload, which has two names. -/
def sizeField : Field SpecDraft :=
  ⟨UInt64, ["payloadSize", "size"], unsigned, (·.payloadSize)⟩

/-- The fields of an entry of the table. -/
def specFields : List (Field SpecDraft) :=
  [⟨String, ["name"], text, (·.name)⟩,
    sizeField,
    ⟨Option String, ["sha1"], digest, (·.sha1)⟩,
    ⟨Option UInt64, ["partitionSize"], optional unsigned, (·.partitionSize)⟩]

/-- **An entry of the table is read field by field**, by `specFields`.

**Proof sketch.** An entry of each of the five names fills its own field (`fill_bind_eq_ok_iff`) and
no other; both names for the length fill the same one (`sizeField`). An entry of another name is
passed over. -/
theorem reads_spec : Reads SpecDraft.put specFields where
  own := by
    intro draft draft' key value hput field hfield hkey
    simp only [specFields, List.mem_cons, List.not_mem_nil, or_false] at hfield
    rcases hfield with rfl | rfl | rfl | rfl
    case inr.inl =>
      rcases List.mem_pair.1 hkey with rfl | rfl <;>
      · obtain ⟨hopen, content, hread, rfl⟩ := fill_bind_eq_ok_iff.1 hput
        exact ⟨hopen, content, hread, rfl⟩
    all_goals
      obtain rfl := List.mem_singleton.1 hkey
      obtain ⟨hopen, content, hread, rfl⟩ := fill_bind_eq_ok_iff.1 hput
      exact ⟨hopen, content, hread, rfl⟩
  other := by
    intro draft draft' key value hput field hfield hkey
    simp only [specFields, List.mem_cons, List.not_mem_nil, or_false] at hfield
    unfold SpecDraft.put at hput
    split at hput
    case h_6 =>
      obtain rfl := Except.ok.inj hput
      rfl
    -- One field is filled: it is not the field in question, whose names are not the key.
    all_goals
      obtain ⟨-, content, -, rfl⟩ := fill_bind_eq_ok_iff.1 hput
      rcases hfield with rfl | rfl | rfl | rfl <;>
        first | rfl | exact absurd (by simp [sizeField]) hkey
  exists_put := by
    intro draft key value hopen
    simp only [specFields, List.forall_mem_cons] at hopen
    obtain ⟨hname, hsize, hsha1, hpartitionSize, -⟩ := hopen
    unfold SpecDraft.put
    split
    · exact exists_fill_bind (hname (List.mem_singleton_self _))
    · exact exists_fill_bind (hsize (by simp [sizeField]))
    · exact exists_fill_bind (hsize (by simp [sizeField]))
    · exact exists_fill_bind (hsha1 (List.mem_singleton_self _))
    · exact exists_fill_bind (hpartitionSize (List.mem_singleton_self _))
    · exact ⟨draft, rfl⟩

/-- The fields of a manifest tell drafts apart. -/
private lemma separates_manifestFields : Separates manifestFields := by
  intro d d' h
  simp only [manifestFields, List.forall_mem_cons] at h
  obtain ⟨hkernelMem, hsetTotalMem, hmtdPrefix, hosmem, hcmdline, hskip, hpartitions, -⟩ := h
  cases d
  cases d'
  congr 1

/-- The fields of an entry of the table tell drafts apart. -/
private lemma separates_specFields : Separates specFields := by
  intro d d' h
  simp only [specFields, List.forall_mem_cons] at h
  obtain ⟨hname, hsize, hsha1, hpartitionSize, -⟩ := h
  cases d
  cases d'
  congr 1

/-- The only field of a record, named `name`, tells drafts apart. -/
private lemma separates_soleField {α : Type} (name : String) (read : Value → Decoded α) :
    Separates [soleField name read] :=
  fun _ _ h => h _ (List.mem_singleton_self _)

end Decode

/-! ## Spellings -/

/-- The entries of a mapping are spelled in another way: they are moved, entries whose keys are not
in `known` are put in or taken away, and an entry is replaced by one that says the `same`. -/
inductive Yaml.Respelled (known : List String) (same : Value × Value → Value × Value → Prop) :
    List (Value × Value) → List (Value × Value) → Prop
  | permute {entries entries' : List (Value × Value)} (h : entries.Perm entries') :
      Respelled known same entries entries'
  | insert {key : String} (unknown : key ∉ known) (value : Value)
      (entries : List (Value × Value)) :
      Respelled known same entries ((.string key, value) :: entries)
  | replace {entry entry' : Value × Value} (h : same entry entry')
      (entries : List (Value × Value)) :
      Respelled known same (entry :: entries) (entry' :: entries)
  | symm {entries entries' : List (Value × Value)} (h : Respelled known same entries entries') :
      Respelled known same entries' entries
  | trans {entries entries' entries'' : List (Value × Value)}
      (h : Respelled known same entries entries')
      (h' : Respelled known same entries' entries'') : Respelled known same entries entries''

/-- The length of a payload is given under its other name. -/
inductive Yaml.Renamed : Value × Value → Value × Value → Prop
  | size (value : Value) : Renamed (.string "payloadSize", value) (.string "size", value)

/-- The entries `e` and `e'` have the same `key`, and what stands there says the `same`. -/
def Yaml.Under (key : String) (same : Value → Value → Prop) (e e' : Value × Value) : Prop :=
  e.1 = e'.1 ∧ e.1.untagged = .string key ∧ same e.2 e'.2

namespace Yaml.Value

/-- The mapping `value` is spelled in another way, as `value'`. -/
def RespelledMapping (known : List String) (same : Value × Value → Value × Value → Prop)
    (value value' : Value) : Prop :=
  value = value' ∨ ∃ entries entries', value.untagged = .mapping entries ∧
    value'.untagged = .mapping entries' ∧ Respelled known same entries entries'

/-- The items of the sequence `value` are spelled in another way, one by one, in `value'`. -/
def RespelledItems (same : Value → Value → Prop) (value value' : Value) : Prop :=
  value = value' ∨ ∃ items items', value.untagged = .sequence items ∧
    value'.untagged = .sequence items' ∧ List.Forall₂ same items items'

/-- An entry of the table is spelled in another way. -/
def RespelledSpec : Value → Value → Prop :=
  RespelledMapping ["name", "payloadSize", "size", "sha1", "partitionSize"] Renamed

/-- A memory chip is spelled in another way, perhaps also in its table. -/
def RespelledChip : Value → Value → Prop :=
  RespelledMapping ["partitions"] (Under "partitions" (RespelledItems RespelledSpec))

/-- A header is spelled in another way, perhaps also in its tables. One with a table at the top is a
manifest, where nothing reads the chips, and any other is a device descriptor. -/
inductive RespelledHeader (header header' : Value) : Prop
  | manifest (table : (header.get? "partitions").isSome)
      (h : header.RespelledMapping
        ["kernelMem", "setTotalMem", "mtdPrefix", "osmem", "additionalCmdline", "skip",
          "partitions", "rom"]
        (fun e e' => Under "partitions" (RespelledItems RespelledSpec) e e' ∨
          Under "rom" (fun _ _ => True) e e') header')
  | deviceDescriptor (table : header.get? "partitions" = none)
      (h : header.RespelledMapping ["partitions", "rom"]
        (Under "rom" (RespelledItems RespelledChip)) header')

/-- A mapping has a value for a `key` if one of the keys of its `entries` is that text. -/
lemma isSome_get?_iff {value : Value} {entries : List (Value × Value)}
    (h : value.untagged = .mapping entries) {key : String} :
    (value.get? key).isSome ↔ ∃ e ∈ entries, e.1.isString key := by
  rw [get?, h]
  simp only [Option.isSome_map, List.find?_isSome]

/-- In all spellings of a mapping there are values for the same keys of those in `known`.

**Proof sketch.** Induction on the way from one spelling to the other. Moved entries have the same
keys, an entry that is put in has an unknown one, and one that is replaced keeps its own. -/
lemma RespelledMapping.isSome_get?_iff {known : List String}
    {same : Value × Value → Value × Value → Prop} {value value' : Value}
    (hsame : ∀ e e', same e e' → e.1 = e'.1) (h : value.RespelledMapping known same value')
    {key : String} (hkey : key ∈ known) :
    (value.get? key).isSome ↔ (value'.get? key).isSome := by
  obtain rfl | ⟨entries, entries', hvalue, hvalue', hspelling⟩ := h
  · rfl
  rw [Value.isSome_get?_iff hvalue, Value.isSome_get?_iff hvalue']
  clear hvalue hvalue'
  induction hspelling with
  | permute hperm => exact exists_congr fun e => and_congr_left' hperm.mem_iff
  | @insert other hunknown _ entries =>
    have hother : isString key (.string other) = false := by
      simp only [isString, beq_eq_false_iff_ne]
      rintro rfl
      exact hunknown hkey
    simp [hother]
  | replace hentry entries => simp [hsame _ _ hentry]
  | symm _ ih => exact ih.symm
  | trans _ _ ih ih' => exact ih.trans ih'

end Yaml.Value

namespace Decode

/-- **A mapping is read alike in all its spellings**, if entries can change places, those that are
not `known` are passed over, and those that say the `same` are read alike.

**Proof sketch.** Induction on the way from one spelling to the other. Moved entries are read in
another order (`foldlM_perm`, `Decode.Reads.entry_comm`). An entry that is put in front leaves the
draft as it is, and one that is replaced in front gives the same draft. -/
theorem agree_record {δ : Type} {put : δ → String → Value → Decoded δ} {fields : List (Field δ)}
    (h : Reads put fields) (hfields : Separates fields) {known : List String}
    {same : Value × Value → Value × Value → Prop}
    (hunknown : ∀ draft key value, key ∉ known → put draft key value = .ok draft)
    (hsame : ∀ draft e e', same e e' → Agree (entry put draft e) (entry put draft e'))
    {value value' : Value} (hvalue : value.RespelledMapping known same value') (name : String)
    (empty : δ) : Agree (record name put empty value) (record name put empty value') := by
  obtain rfl | ⟨entries, entries', hvalue, hvalue', hspelling⟩ := hvalue
  · exact .refl _
  rw [record, record, hvalue, hvalue']
  show Agree (entries.foldlM (entry put) empty) (entries'.foldlM (entry put) empty)
  clear hvalue hvalue'
  induction hspelling with
  | permute hperm => exact Agree.foldlM_perm (h.entry_comm hfields) hperm empty
  | @insert key hkey value entries =>
    have hentry : entry put empty (.string key, value) = .ok empty := hunknown empty key value hkey
    rw [List.foldlM_cons, hentry]
    exact .refl _
  | replace hentry entries =>
    rw [List.foldlM_cons, List.foldlM_cons]
    exact (hsame _ _ _ hentry).bind fun _ => .refl _
  | symm _ ih => exact ih.symm
  | trans _ _ ih ih' => exact ih.trans ih'

/-- Sequences are read alike if `read` reads their items alike. -/
private lemma agree_items {α : Type} {read : Value → Decoded α} {same : Value → Value → Prop}
    (hread : ∀ item item', same item item' → Agree (read item) (read item')) {value value' : Value}
    (h : value.RespelledItems same value') : Agree (items read value) (items read value') := by
  obtain rfl | ⟨values, values', hvalue, hvalue', hall⟩ := h
  · exact .refl _
  rw [items, items, hvalue, hvalue']
  exact .mapM (hall.imp hread)

/-- An open `field` is filled alike from `x` and `y` that agree. -/
private lemma agree_fill {α : Type} (field : String) (old : Option α) {x y : Decoded α}
    (h : Agree x y) : Agree (fill field old x) (fill field old y) := by
  cases old with
  | some content => exact .refl _
  | none => exact h.map some

/-- Entries `e` and `e'` with the same `key` are put into a draft alike, if their values are. -/
private lemma agree_entry_of_under {δ : Type} {put : δ → String → Value → Decoded δ} {key : String}
    {same : Value → Value → Prop}
    (hput : ∀ draft value value', same value value' →
      Agree (put draft key value) (put draft key value'))
    {e e' : Value × Value} (h : Under key same e e') (draft : δ) :
    Agree (entry put draft e) (entry put draft e') := by
  obtain ⟨hkeys, hkey, hvalues⟩ := h
  have htext : textAs .fieldName e.1 = .ok key := by rw [textAs, hkey]
  rw [entry, entry, ← hkeys, htext]
  exact hput draft _ _ hvalues

/-! ## Spellings of the records of headers -/

/-- An entry of the table is read alike in all its spellings.

**Proof sketch.** A renamed length fills the same field, and other keys are passed over, so
`agree_record` applies. What is made of the draft agrees, too (`Agree.bind`). -/
private lemma agree_spec {value value' : Value} (h : value.RespelledSpec value') :
    Agree (spec value) (spec value') := by
  have hunknown : ∀ (draft : SpecDraft) (key : String) (value : Value),
      key ∉ ["name", "payloadSize", "size", "sha1", "partitionSize"] →
        draft.put key value = .ok draft := by
    intro draft key value hkey
    unfold SpecDraft.put
    split
    case h_6 => rfl
    all_goals exact absurd (by decide) hkey
  refine (agree_record reads_spec separates_specFields hunknown ?_ h "PartitionSpec" {}).bind
    fun _ => .refl _
  rintro draft _ _ ⟨value⟩
  exact .refl _

/-- A table is read alike in all its spellings. -/
private lemma agree_table {value value' : Value}
    (h : value.RespelledItems Value.RespelledSpec value') :
    Agree (table value) (table value') :=
  agree_items (fun _ _ hitem => agree_spec hitem) h

/-- A memory chip is read alike in all its spellings. -/
private lemma agree_romDescriptor {value value' : Value} (h : value.RespelledChip value') :
    Agree (romDescriptor value) (romDescriptor value') := by
  have hunknown : ∀ draft key value, key ∉ ["partitions"] →
      putPartitions draft key value = .ok draft := by
    intro draft key value hkey
    rw [putPartitions, if_neg (by simpa using hkey)]
  refine (agree_record reads_rom (separates_soleField _ _) hunknown ?_ h "RomDescriptor" none).bind
    fun _ => .refl _
  intro draft e e' hsame
  exact agree_entry_of_under (fun draft _ _ hvalues => agree_fill _ _ (agree_table hvalues)) hsame
    draft

/-- A manifest is read alike in all its spellings.

**Proof sketch.** By `agree_record` the entries need to be looked at one by one. One for the table
is read alike (`Decode.agree_table`), and one for chips beside it is passed over. -/
private lemma agree_manifest {value value' : Value}
    (h : value.RespelledMapping
      ["kernelMem", "setTotalMem", "mtdPrefix", "osmem", "additionalCmdline", "skip",
        "partitions", "rom"]
      (fun e e' => Under "partitions" (Value.RespelledItems Value.RespelledSpec) e e' ∨
        Under "rom" (fun _ _ => True) e e') value') :
    Agree (manifest value) (manifest value') := by
  have hunknown : ∀ (draft : ManifestDraft) (key : String) (value : Value),
      key ∉ ["kernelMem", "setTotalMem", "mtdPrefix", "osmem", "additionalCmdline", "skip",
        "partitions", "rom"] → draft.put key value = .ok draft := by
    intro draft key value hkey
    unfold ManifestDraft.put
    split
    case h_8 => rfl
    all_goals exact absurd (by decide) hkey
  refine (agree_record reads_manifest separates_manifestFields hunknown ?_ h "Manifest" {}).bind
    fun _ => .refl _
  rintro draft e e' (hsame | hsame)
  · exact agree_entry_of_under
      (fun draft _ _ hvalues => (agree_fill _ _ (agree_table hvalues)).bind fun _ => .refl _)
      hsame draft
  · exact agree_entry_of_under (fun draft _ _ _ => .refl _) hsame draft

/-- A device descriptor is read alike in all its spellings. Its only field is the sequence of chips,
which are read alike one by one (`Decode.agree_romDescriptor`). -/
private lemma agree_deviceDescriptor {value value' : Value}
    (h : value.RespelledMapping ["partitions", "rom"]
      (Under "rom" (Value.RespelledItems Value.RespelledChip)) value') :
    Agree (deviceDescriptor value) (deviceDescriptor value') := by
  have hunknown : ∀ draft key value, key ∉ ["partitions", "rom"] →
      putRom draft key value = .ok draft := by
    intro draft key value hkey
    rw [putRom, if_neg (fun hrom => hkey (by simp [hrom]))]
  refine (agree_record reads_device (separates_soleField _ _) hunknown ?_ h
    "DeviceDescriptor" none).bind fun _ => .refl _
  intro draft e e' hsame
  exact agree_entry_of_under
    (fun draft _ _ hvalues =>
      agree_fill _ _ (agree_items (fun _ _ hchip => agree_romDescriptor hchip) hvalues))
    hsame draft

end Decode

/-! ## Lengths given twice -/

namespace Yaml.Value

/-- The mapping `value` has the `content` under a `key`, which perhaps has tags around it. -/
def HasEntry (value : Value) (key : String) (content : Value) : Prop :=
  ∃ entries e, value.untagged = .mapping entries ∧ e ∈ entries ∧ e.1.untagged = .string key ∧
    e.2 = content

/-- The sequence `value` has the `item`. -/
def HasItem (value item : Value) : Prop :=
  ∃ items, value.untagged = .sequence items ∧ item ∈ items

/-- The value `item` stands in the table of a manifest, or in the table of any memory chip of a
device descriptor. -/
def IsEntryOf (item header : Value) : Prop :=
  ((header.get? "partitions").isSome ∧
    ∃ table, header.HasEntry "partitions" table ∧ table.HasItem item) ∨
  (header.get? "partitions" = none ∧
    ∃ rom chip table, header.HasEntry "rom" rom ∧ rom.HasItem chip ∧
      chip.HasEntry "partitions" table ∧ table.HasItem item)

end Yaml.Value

namespace Decode

/-- What stands under a `key` in a record can be read for the `field` that the key names. -/
private lemma Reads.exists_read_of_hasEntry {δ : Type} {put : δ → String → Value → Decoded δ}
    {fields : List (Field δ)} (h : Reads put fields) (hfields : Separates fields)
    {value content : Value} {key name : String} {empty last : δ}
    (hread : record name put empty value = .ok last) (hentry : value.HasEntry key content)
    {field : Field δ} (hfield : field ∈ fields) (hname : key ∈ field.names) :
    ∃ x, field.read content = .ok x := by
  obtain ⟨entries, e, hvalue, he, hkey, rfl⟩ := hentry
  rw [record, hvalue] at hread
  exact h.exists_read_of_mem hfields hread he hkey hfield hname

/-- An `item` of a sequence that was read can be read. -/
private lemma exists_read_of_hasItem {α : Type} {read : Value → Decoded α} {value item : Value}
    {xs : List α} (hread : items read value = .ok xs) (hitem : value.HasItem item) :
    ∃ x, read item = .ok x := by
  obtain ⟨values, hvalue, hmem⟩ := hitem
  rw [items, hvalue] at hread
  exact exists_mapM_eq_ok_iff.1 ⟨xs, hread⟩ item hmem

/-- **The length of a payload is given once**: an `item` with both names for it is not read.

**Proof sketch.** Both entries name the same field, so they are the same entry
(`Decode.Reads.eq_of_mem_of_mem`). But their keys are different. -/
theorem spec_ne_ok_of_hasEntry {item size payloadSize : Value} (hsize : item.HasEntry "size" size)
    (hpayloadSize : item.HasEntry "payloadSize" payloadSize) (result : PartitionSpec) :
    spec item ≠ .ok result := by
  intro hspec
  obtain ⟨entries, e, hitem, he, hkey, -⟩ := hsize
  obtain ⟨entries', e', hitem', he', hkey', -⟩ := hpayloadSize
  obtain rfl := Value.mapping.inj (hitem.symm.trans hitem')
  rw [spec] at hspec
  obtain ⟨draft, hdraft, -⟩ := bind_eq_ok_iff.1 hspec
  rw [record, hitem] at hdraft
  have hfield : sizeField ∈ specFields := by simp [specFields]
  have hsame : e = e' := reads_spec.eq_of_mem_of_mem separates_specFields hdraft he he' hkey hkey'
    hfield (by simp [sizeField]) (by simp [sizeField])
  rw [hsame, hkey'] at hkey
  exact absurd (Value.string.inj hkey) (by decide)

end Decode

/-! ## Headers -/

namespace ManifestDocument

/-- **A header is read alike in all its spellings.**

**Proof sketch.** It has the same shape in all of them, since both keys that show it are known
(`Yaml.Value.RespelledMapping.isSome_get?_iff`). A manifest is then read alike
(`Decode.agree_manifest`), and so is a device descriptor (`Decode.agree_deviceDescriptor`). -/
theorem agree_ofValue {header header' : Value} (h : header.RespelledHeader header') :
    Agree (ofValue header) (ofValue header') := by
  rw [ofValue, ofValue]
  cases h with
  | manifest table h =>
    have hkeys : ∀ e e', Under "partitions" (Value.RespelledItems Value.RespelledSpec) e e' ∨
        Under "rom" (fun _ _ => True) e e' → e.1 = e'.1 := by
      rintro e e' (hsame | hsame)
      · exact hsame.1
      · exact hsame.1
    have htable' : (header'.get? "partitions").isSome :=
      (h.isSome_get?_iff hkeys (by decide)).1 table
    rw [if_pos table, if_pos htable']
    exact (Decode.agree_manifest h).map _
  | deviceDescriptor table h =>
    have hkeys : ∀ key ∈ ["partitions", "rom"],
        (header.get? key).isSome ↔ (header'.get? key).isSome :=
      fun key hkey => h.isSome_get?_iff (fun _ _ hsame => hsame.1) hkey
    have hheader : ¬(header.get? "partitions").isSome := by simp [table]
    rw [if_neg hheader, if_neg (mt (hkeys "partitions" (by decide)).2 hheader)]
    by_cases hrom : (header.get? "rom").isSome
    · rw [if_pos hrom, if_pos ((hkeys "rom" (by decide)).1 hrom)]
      exact (Decode.agree_deviceDescriptor h).bind fun _ => .refl _
    · rw [if_neg hrom, if_neg (mt (hkeys "rom" (by decide)).2 hrom)]
      exact .refl _

/-- An entry `item` of a table with both names for the length of its payload refuses the header.

**Proof sketch.** If the header was read, so was what stands in it, down to `item`
(`Decode.Reads.exists_read_of_hasEntry`, `Decode.exists_read_of_hasItem`), which cannot be
(`Decode.spec_ne_ok_of_hasEntry`). -/
private lemma ofValue_ne_ok_of_isEntryOf {header item size payloadSize : Value}
    (hitem : item.IsEntryOf header) (hsize : item.HasEntry "size" size)
    (hpayloadSize : item.HasEntry "payloadSize" payloadSize) (document : ManifestDocument) :
    ofValue header ≠ .ok document := by
  intro hread
  have hrefused : ∀ {table : Value}, table.HasItem item →
      ∀ specs, Decode.table table ≠ .ok specs := by
    intro table hmem specs htable
    obtain ⟨result, hspec⟩ := Decode.exists_read_of_hasItem htable hmem
    exact Decode.spec_ne_ok_of_hasEntry hsize hpayloadSize result hspec
  rw [ofValue] at hread
  rcases hitem with ⟨hshape, table, htable, hmem⟩ |
    ⟨hshape, rom, chip, table, hrom, hchip, htable, hmem⟩
  · rw [if_pos hshape] at hread
    cases hmanifest : Decode.manifest header with
    | error fault =>
      rw [hmanifest] at hread
      cases hread
    | ok manifest =>
      rw [Decode.manifest] at hmanifest
      obtain ⟨draft, hdraft, -⟩ := bind_eq_ok_iff.1 hmanifest
      obtain ⟨specs, hspecs⟩ := Decode.reads_manifest.exists_read_of_hasEntry
        Decode.separates_manifestFields hdraft htable Decode.tableField_mem
        (List.mem_singleton_self _)
      exact hrefused hmem specs hspecs
  · rw [if_neg (by simp [hshape])] at hread
    split at hread
    case isFalse => cases hread
    obtain ⟨descriptor, hdescriptor, -⟩ := bind_eq_ok_iff.1 hread
    rw [Decode.deviceDescriptor] at hdescriptor
    obtain ⟨draft, hdraft, -⟩ := bind_eq_ok_iff.1 hdescriptor
    obtain ⟨chips, hchips⟩ := Decode.reads_device.exists_read_of_hasEntry
      (Decode.separates_soleField _ _) hdraft hrom (List.mem_singleton_self _)
      (List.mem_singleton_self _)
    obtain ⟨result, hresult⟩ := Decode.exists_read_of_hasItem hchips hchip
    rw [Decode.romDescriptor] at hresult
    obtain ⟨chipDraft, hchipDraft, -⟩ := bind_eq_ok_iff.1 hresult
    obtain ⟨specs, hspecs⟩ := Decode.reads_rom.exists_read_of_hasEntry
      (Decode.separates_soleField _ _) hchipDraft htable (List.mem_singleton_self _)
      (List.mem_singleton_self _)
    exact hrefused hmem specs hspecs

/-- **Headers are read alike in all their spellings**, as values and as texts that have these
values. An entry `item` with both names for the length of its payload, wherever the two stand,
refuses the header.

**Proof sketch.** The value of a text is all that is read of it, so both parts are about values:
they are `agree_ofValue` and `ofValue_ne_ok_of_isEntryOf`. The check of the names depends on what is
read alone. -/
theorem ofValue_spelling (header : Value) :
    (∀ header', header.RespelledHeader header' →
      (∀ document, ofValue header = .ok document ↔ ofValue header' = .ok document) ∧
      ∀ text text', Value.ofText? text = some header → Value.ofText? text' = some header' →
        ∀ document, ofText text = .ok document ↔ ofText text' = .ok document) ∧
    ∀ item size payloadSize : Value, item.IsEntryOf header → item.HasEntry "size" size →
      item.HasEntry "payloadSize" payloadSize →
        (∀ document, ofValue header ≠ .ok document) ∧
        ∀ text, Value.ofText? text = some header → ∀ document, ofText text ≠ .ok document := by
  constructor
  · intro header' h
    have hagree := agree_ofValue h
    refine ⟨hagree, ?_⟩
    intro text text' hvalue hvalue'
    rw [ofText, ofText, hvalue, hvalue']
    exact hagree.bind fun _ => .refl _
  · intro item size payloadSize hitem hsize hpayloadSize
    have hrefused := ofValue_ne_ok_of_isEntryOf hitem hsize hpayloadSize
    refine ⟨hrefused, ?_⟩
    intro text hvalue document hread
    rw [ofText, hvalue] at hread
    obtain ⟨document', hdocument', -⟩ := bind_eq_ok_iff.1 hread
    exact hrefused document' hdocument'

end ManifestDocument

/-- An entry of a table. -/
def Json.bootEntry : Json :=
  .object [("name", .string "boot"), ("payloadSize", .number 2)]

/-- The same entry in another order, with the other name for the length and one more key. -/
def Json.bootEntryRespelled : Json :=
  .object [("size", .number 2), ("name", .string "boot"), ("note", .boolean true)]

/-- The same entry with the length under both names. -/
def Json.bootEntryTwice : Json :=
  .object [("size", .number 2), ("name", .string "boot"), ("payloadSize", .number 2)]

/-- A header with one `entry` in its table and a key that nothing reads. -/
def Json.headerOf (entry : Json) : Json :=
  .object [("comment", .boolean true), ("partitions", .array [entry])]

/-- The header of `entry` is read for what it is written for, if its texts are safe. -/
lemma Json.ofText?_headerOf {entry : Json} (hshaped : entry.Shaped 126)
    (hsafe : ∀ text ∈ (headerOf entry).texts, SafeText text) :
    Value.ofText? (headerOf entry).compact.toUTF8 = some (headerOf entry).toYaml := by
  have hkeys : ∀ key ∈ ["comment", "partitions"], IsKey key := by decide
  have htable : Json.Shaped 127 (.array [entry]) := .array (by simp [hshaped])
  have hcomment : Json.Shaped 127 (.boolean true) := .boolean _
  exact Value.ofText?_write_of_legible .compact
    (.object (by simp [hkeys]) (by simp) (by simp [hcomment, htable]))
    fun text htext => legible_of_safeText (hsafe text htext)

/-- The three entries `bootEntry`, `bootEntryRespelled` and `bootEntryTwice` can stand in a
header. -/
private lemma Json.ofText?_headerOf_bootEntry :
    ∀ entry ∈ [bootEntry, bootEntryRespelled, bootEntryTwice],
      Value.ofText? (headerOf entry).compact.toUTF8 = some (headerOf entry).toYaml := by
  have hsafe : ∀ entry ∈ [bootEntry, bootEntryRespelled, bootEntryTwice],
      ∀ text ∈ (headerOf entry).texts, SafeText text := by decide
  have hshaped : ∀ entry ∈ [bootEntry, bootEntryRespelled, bootEntryTwice],
      Json.Shaped 126 entry := by
    have hname : Json.Shaped 125 (.string "boot") := .string _
    have hsize : Json.Shaped 125 (.number 2) := .number (by decide)
    have hnote : Json.Shaped 125 (.boolean true) := .boolean _
    simp only [List.forall_mem_cons, List.not_mem_nil, false_imp_iff, implies_true, and_true]
    exact ⟨.object (by decide) (by decide) (by simp [hname, hsize]),
      .object (by decide) (by decide) (by simp [hname, hsize, hnote]),
      .object (by decide) (by decide) (by simp [hname, hsize])⟩
  exact fun entry hentry => ofText?_headerOf (hshaped entry hentry) (hsafe entry hentry)

/-- The headers of `Json.bootEntry` and `Json.bootEntryRespelled` are read as the same manifest, and
that of `Json.bootEntryTwice` is refused. -/
theorem ManifestDocument.ofValue_spelling_boot :
    (Json.headerOf .bootEntry).toYaml.RespelledHeader
        (Json.headerOf .bootEntryRespelled).toYaml ∧
      ofText (Json.headerOf .bootEntry).compact.toUTF8 = .ok (.bundle .oneBoot) ∧
      ofText (Json.headerOf .bootEntryRespelled).compact.toUTF8 = .ok (.bundle .oneBoot) ∧
      ∀ document, ofText (Json.headerOf .bootEntryTwice).compact.toUTF8 ≠ .ok document := by
  have hentry : Json.bootEntry.toYaml.RespelledSpec Json.bootEntryRespelled.toYaml := by
    have hnote : "note" ∉ ["name", "payloadSize", "size", "sha1", "partitionSize"] := by decide
    refine .inr ⟨_, _, rfl, rfl, ?_⟩
    refine .trans (.permute (.swap _ _ _)) (.trans (.replace (.size _) _) ?_)
    exact .trans (.insert hnote (.boolean true) _)
      (.permute (List.perm_append_singleton _ [_, _]).symm)
  have hspelling : (Json.headerOf .bootEntry).toYaml.RespelledHeader
      (Json.headerOf .bootEntryRespelled).toYaml := by
    refine .manifest (by decide) (.inr ⟨_, _, rfl, rfl, ?_⟩)
    refine .trans (.permute (.swap _ _ _)) (.trans (.replace ?_ _) (.permute (.swap _ _ _)))
    exact .inl ⟨rfl, rfl, .inr ⟨_, _, rfl, rfl, .cons hentry .nil⟩⟩
  have hread : ofText (Json.headerOf .bootEntry).compact.toUTF8 = .ok (.bundle .oneBoot) := by
    rw [ofText, Json.ofText?_headerOf_bootEntry _ (by simp)]
    rfl
  refine ⟨hspelling, hread, ?_, ?_⟩
  · exact (((ofValue_spelling _).1 _ hspelling).2 _ _ (Json.ofText?_headerOf_bootEntry _ (by simp))
      (Json.ofText?_headerOf_bootEntry _ (by simp)) _).1 hread
  · have hitem : Json.bootEntryTwice.toYaml.IsEntryOf (Json.headerOf .bootEntryTwice).toYaml :=
      .inl ⟨by decide, _, ⟨_, _, rfl, List.mem_of_getElem? (i := 1) rfl, rfl, rfl⟩, _, rfl,
        List.mem_cons_self⟩
    have hsize : Json.bootEntryTwice.toYaml.HasEntry "size" (.integer 2) :=
      ⟨_, _, rfl, List.mem_of_getElem? (i := 0) rfl, rfl, rfl⟩
    have hpayloadSize : Json.bootEntryTwice.toYaml.HasEntry "payloadSize" (.integer 2) :=
      ⟨_, _, rfl, List.mem_of_getElem? (i := 2) rfl, rfl, rfl⟩
    exact ((ofValue_spelling _).2 _ _ _ hitem hsize hpayloadSize).2 _
      (Json.ofText?_headerOf_bootEntry _ (by simp))

end FirmwareBundle
