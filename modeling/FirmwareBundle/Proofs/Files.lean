import FirmwareBundle.Files.System
import FirmwareBundle.Proofs.Path
import FirmwareBundle.Proofs.Results
import Mathlib.Data.List.Basic
/-!
# What file operations do

Most operations end at a place for a file: a name in a directory that is no directory itself.
Whether a path leads to such a place depends on the directories alone. So it still does after files
have been written, and a file that is written is the only thing that changes.

## Main definitions

* `FirmwareBundle.FileSystem.Names` — a path leads to a place for a file.
* `FirmwareBundle.FileSystem.SameDirectories` — the directories are the same.
* `FirmwareBundle.FileSystem.SameExcept` — nothing has changed but some places.
* `FirmwareBundle.FileSystem.IsDirectory` — a path leads to a directory.

## Main results

* `FirmwareBundle.FileSystem.read_eq_ok_iff`, `FirmwareBundle.FileSystem.create_eq_ok_iff`,
  `FirmwareBundle.FileSystem.write_eq_ok_iff`, `FirmwareBundle.FileSystem.move_eq_ok_iff` — the
  operations that succeed, and what they do.
* `FirmwareBundle.FileSystem.SameDirectories.names_iff` — paths lead where they led.
* `FirmwareBundle.FileSystem.IsDirectory.write_join` — a file written into a directory.
-/

namespace FirmwareBundle

/-! ## Trees -/

namespace FileTree

variable {tree : FileTree} {place other : Location} {entry : FileEntry}

/-- What is at a place `other` than `place` is found in `entries` also without the entries of
`place`. -/
private lemma lookup_filter_of_ne (h : other ≠ place) (entries : List (Location × FileEntry)) :
    (entries.filter (·.1 != place)).lookup other = entries.lookup other := by
  induction entries with
  | nil => rfl
  | cons head entries ih =>
    obtain ⟨here, found⟩ := head
    by_cases hhere : here = place
    · subst hhere
      rw [List.filter_cons_of_neg (by simp), ih, List.lookup_cons, beq_false_of_ne h]
    · rw [List.filter_cons_of_pos (by simpa using hhere), List.lookup_cons, List.lookup_cons, ih]

/-- What is at `other` after an `entry` was put at `place`: the entry itself if that is the place,
and else what was there before. -/
lemma get?_put (hplace : place ≠ []) (entry : FileEntry) (other : Location) :
    (tree.put place entry).get? other = if other = place then some entry else tree.get? other := by
  by_cases hother : other = place
  · subst hother
    rw [if_pos rfl, get?, if_neg hplace, put, List.lookup_cons_self]
  · rw [if_neg hother, get?, get?, put, erase, List.lookup_cons, beq_false_of_ne hother]
    simp only [lookup_filter_of_ne hother]

/-- An entry that is put at a place twice is there as it was put last. -/
@[simp] lemma put_put (tree : FileTree) (place : Location) (first second : FileEntry) :
    (tree.put place first).put place second = tree.put place second := by
  simp [put, erase]

/-- An entry that is put at a place and taken away again leaves the place empty, and so does taking
away what was there before. -/
@[simp] lemma erase_put (tree : FileTree) (place : Location) (entry : FileEntry) :
    (tree.put place entry).erase place = tree.erase place := by
  simp [put, erase]

/-- Nothing is taken away from an empty place: `tree.erase place` is `tree` if there is nothing at
`place`. -/
lemma erase_of_get?_eq_none (h : tree.get? place = none) : tree.erase place = tree := by
  rw [get?] at h
  split at h
  · cases h
  · rw [List.lookup_eq_none_iff] at h
    have hall : ∀ entry ∈ tree.entries, entry.1 != place := by
      intro entry hentry
      have hne : place ≠ entry.1 := bne_iff_ne.1 (h entry hentry)
      exact bne_iff_ne.2 hne.symm
    rw [erase, List.filter_eq_self.2 hall]

end FileTree

namespace FileSystem

variable {fs fs' fs'' : FileSystem} {path : String} {place other : Location} {data : ByteArray}

/-- What is at `other` after a file with the contents `data` was put at `place` in the file system
`fs`. -/
lemma get?_tree_put (hplace : place ≠ []) (data : ByteArray) (other : Location) :
    (fs.put place data).tree.get? other =
      if other = place then some (.file data) else fs.tree.get? other :=
  FileTree.get?_put hplace _ other

/-- A file that is put at a place twice holds what was put there last. -/
@[simp] lemma put_put (fs : FileSystem) (place : Location) (first second : ByteArray) :
    (fs.put place first).put place second = fs.put place second := by
  simp [put]

/-- Writing `data` on at the end of a file that was put at `place` with the contents `old` puts
`old ++ data` there. -/
lemma append_put (hplace : place ≠ []) (old data : ByteArray) :
    (fs.put place old).append place data = fs.put place (old ++ data) := by
  rw [append, get?_tree_put hplace, if_pos rfl]
  exact put_put fs place old (old ++ data)

/-! ## Places for files -/

/-- The path leads to `place` as a place for a file: it ends with a name in a directory, not with a
slash, and the name is not that of a directory. -/
structure Names (fs : FileSystem) (path : String) (place : Location) : Prop where
  exists_target : ∃ dir name, fs.target path = .ok (.name dir name) ∧ child dir name = .ok place
  noSlash : Path.hasTrailingSlash path = false
  notDirectory : fs.tree.get? place ≠ some .directory

/-- The place of `name` in `dir` is `dir ++ [name]`, and there is one if `name` is not longer than
`maxNameLength`. -/
lemma child_eq_ok_iff {dir : Location} {name : String} :
    child dir name = .ok place ↔ name.utf8ByteSize ≤ maxNameLength ∧ place = dir ++ [name] := by
  rw [child]
  split
  · simp only [reduceCtorEq, false_iff]
    omega
  · simp only [Except.ok.injEq, eq_comm]
    exact ⟨fun h => ⟨by omega, h⟩, fun h => h.2⟩

/-- A place for a file is not the root, since a name is the last part of it. -/
lemma Names.ne_nil (h : fs.Names path place) : place ≠ [] := by
  obtain ⟨dir, name, -, hchild⟩ := h.exists_target
  rw [(child_eq_ok_iff.1 hchild).2]
  exact List.append_ne_nil_of_right_ne_nil dir (List.cons_ne_nil name [])

/-- A path leads to one place for a file at most: the target of a path is unique, and so is the
place of its last name. -/
lemma Names.unique (h : fs.Names path place) (h' : fs.Names path other) : place = other := by
  obtain ⟨dir, name, htarget, hchild⟩ := h.exists_target
  obtain ⟨_, _, htarget', hchild'⟩ := h'.exists_target
  obtain ⟨rfl, rfl⟩ := Target.name.inj (Except.ok.inj (htarget.symm.trans htarget'))
  exact Except.ok.inj (hchild.symm.trans hchild')

/-! ## Operations -/

/-- **A file is read** with the contents `data` if and only if the path leads to a place for a file,
and the file there holds `data`.

**Proof sketch.** Reading finds the target of the path, the place of its last name, and what is
there, in this order. It succeeds only if that is a file and the path has no slash at its end, and
these are the conditions of `Names`. -/
theorem read_eq_ok_iff :
    fs.read path = .ok data ↔
      ∃ place, fs.Names path place ∧ fs.tree.get? place = some (.file data) := by
  constructor
  · intro h
    obtain ⟨target, htarget, h⟩ := bind_eq_ok_iff.1 h
    cases target with
    | directory dir => cases h
    | name dir name =>
      obtain ⟨place, hchild, h⟩ := bind_eq_ok_iff.1 h
      split at h
      · cases h
      · cases h
      · rename_i found hfound
        split at h
        · cases h
        · rename_i hslash
          obtain rfl := Except.ok.inj h
          exact ⟨place, ⟨⟨dir, name, htarget, hchild⟩, by simpa using hslash,
            by rw [hfound]; nofun⟩, hfound⟩
  · rintro ⟨place, ⟨⟨dir, name, htarget, hchild⟩, hslash, -⟩, hfound⟩
    refine bind_eq_ok_iff.2 ⟨_, htarget, bind_eq_ok_iff.2 ⟨_, hchild, ?_⟩⟩
    simp only [hfound, hslash]
    rfl

/-- **A file is made**, or emptied, at `place` if and only if the path leads there. Then nothing but
the empty file is new in `fs'`.

**Proof sketch.** Making a file checks what `Names` says, step by step: the target, the slash, the
name, and that there is no directory. Then it puts an empty file there. -/
theorem create_eq_ok_iff :
    fs.create path = .ok (place, fs') ↔ fs.Names path place ∧ fs' = fs.put place .empty := by
  constructor
  · intro h
    obtain ⟨target, htarget, h⟩ := bind_eq_ok_iff.1 h
    cases target with
    | directory dir => cases h
    | name dir name =>
      simp only at h
      split at h
      · cases h
      · rename_i hslash
        obtain ⟨found, hchild, h⟩ := bind_eq_ok_iff.1 h
        split at h
        · cases h
        · rename_i hdirectory
          obtain ⟨rfl, rfl⟩ := Prod.mk.inj (Except.ok.inj h)
          exact ⟨⟨⟨dir, name, htarget, hchild⟩, by simpa using hslash, hdirectory⟩, rfl⟩
  · rintro ⟨⟨⟨dir, name, htarget, hchild⟩, hslash, hdirectory⟩, rfl⟩
    refine bind_eq_ok_iff.2 ⟨_, htarget, ?_⟩
    simp only [hslash, Bool.false_eq_true, ↓reduceIte]
    refine bind_eq_ok_iff.2 ⟨_, hchild, ?_⟩
    split
    · contradiction
    · rfl

/-- **A file is written** with the contents `data` if and only if it can be made, and then at the
same place (`create_eq_ok_iff`). -/
theorem write_eq_ok_iff :
    fs.write path data = .ok fs' ↔ ∃ place, fs.Names path place ∧ fs' = fs.put place data := by
  constructor
  · intro h
    obtain ⟨⟨place, made⟩, hcreate, h⟩ := bind_eq_ok_iff.1 h
    obtain ⟨hnames, rfl⟩ := create_eq_ok_iff.1 hcreate
    exact ⟨place, hnames, (Except.ok.inj h).symm.trans (put_put fs place .empty data)⟩
  · rintro ⟨place, hnames, rfl⟩
    refine bind_eq_ok_iff.2 ⟨_, create_eq_ok_iff.2 ⟨hnames, rfl⟩, ?_⟩
    exact congrArg Except.ok (put_put fs place .empty data)

/-- A file that cannot be written cannot even be opened: `write` fails with `cause` if and only if
`create` does. -/
lemma write_eq_error_iff {cause : IoFault} :
    fs.write path data = .error cause ↔ fs.create path = .error cause := by
  rw [write]
  cases fs.create path with
  | error reason => exact ⟨fun h => congrArg _ (Except.error.inj h), fun h => by rw [h]; rfl⟩
  | ok made => exact ⟨nofun, nofun⟩

/-- **A file is moved** from `source` to the place that the path leads to, if there is something at
`source`. Afterwards its `entry` is at that place and no more at `source`.

**Proof sketch.** The checks are those of `Names` and that there is an entry at `source`. What is
done is to take it away there and to put it at the place. -/
theorem move_eq_ok_iff {source : Location} :
    fs.move source path = .ok fs' ↔
      ∃ place entry, fs.Names path place ∧ fs.tree.get? source = some entry ∧
        fs' = { fs with tree := (fs.tree.erase source).put place entry } := by
  constructor
  · intro h
    obtain ⟨target, htarget, h⟩ := bind_eq_ok_iff.1 h
    cases target with
    | directory dir => cases h
    | name dir name =>
      obtain ⟨place, hchild, h⟩ := bind_eq_ok_iff.1 h
      simp only at h
      split at h
      · cases h
      · rename_i hslash
        split at h
        · cases h
        · rename_i entry hentry hdirectory
          obtain rfl := Except.ok.inj h
          exact ⟨place, entry, ⟨⟨dir, name, htarget, hchild⟩, by simpa using hslash,
            hdirectory⟩, hentry, rfl⟩
        · cases h
  · rintro ⟨place, entry, ⟨⟨dir, name, htarget, hchild⟩, hslash, hdirectory⟩, hentry, rfl⟩
    refine bind_eq_ok_iff.2 ⟨_, htarget, bind_eq_ok_iff.2 ⟨_, hchild, ?_⟩⟩
    simp only [hslash, Bool.false_eq_true, ↓reduceIte, hentry]
    rfl

/-- A file is written aside at an empty place, which depends on the directory `dir` alone and not on
the contents; or nothing can be written aside, for the same `cause` whatever the contents are.

**Proof sketch.** The steps before the file is put do not look at `data`: the check of the path, the
walk to `dir`, and the search for a suffix whose place is empty. Each of them fails for all `data`
or for none. -/
lemma exists_stage (fs : FileSystem) (dir : String) :
    (∃ file, file ≠ [] ∧ fs.tree.get? file = none ∧
      ∀ data, fs.stage dir data = .ok (file, fs.put file data)) ∨
    ∃ cause, ∀ data, fs.stage dir data = .error cause := by
  cases hcheck : check (Path.join (Path.join fs.workingPath dir)
      (stagingName ++ fs.suffixes.headD "")) with
  | error cause =>
    right
    apply Exists.intro
    intro data
    simp only [stage, hcheck]
    rfl
  | ok _ =>
    cases hwalk : fs.walk (fs.origin dir) (Path.parts dir) with
    | error cause =>
      right
      apply Exists.intro
      intro data
      simp only [stage, hcheck, hwalk]
      rfl
    | ok place =>
      cases hsuffix : fs.suffixes.find? fun suffix =>
        (fs.tree.get? (place ++ [stagingName ++ suffix])).isNone with
      | none =>
        right
        apply Exists.intro
        intro data
        simp only [stage, hcheck, hwalk, bind, Except.bind, Except.mapError, hsuffix]
        rfl
      | some suffix =>
        refine .inl ⟨place ++ [stagingName ++ suffix],
          List.append_ne_nil_of_right_ne_nil place (List.cons_ne_nil _ _),
          Option.isNone_iff_eq_none.1 (by simpa using List.find?_some hsuffix), fun data => ?_⟩
        simp only [stage, hcheck, hwalk, bind, Except.bind, Except.mapError, hsuffix]
        rfl

/-! ## Files that come and go -/

/-- The directories of `fs'` are those of `fs`, and so is the one in which work is done. -/
structure SameDirectories (fs fs' : FileSystem) : Prop where
  workingDirectory : fs'.workingDirectory = fs.workingDirectory
  directory_iff : ∀ place,
    fs'.tree.get? place = some .directory ↔ fs.tree.get? place = some .directory

/-- Nothing in `fs'` has changed against `fs` but what is at `places`. -/
structure SameExcept (fs fs' : FileSystem) (places : List Location) : Prop where
  workingDirectory : fs'.workingDirectory = fs.workingDirectory
  suffixes : fs'.suffixes = fs.suffixes
  get?_eq : ∀ place ∉ places, fs'.tree.get? place = fs.tree.get? place

namespace SameDirectories

/-- The directories are the same if nothing happens. -/
lemma refl (fs : FileSystem) : SameDirectories fs fs :=
  ⟨rfl, fun _ => Iff.rfl⟩

/-- The directories are the same if they were the same after each of two steps. -/
lemma trans (h : SameDirectories fs fs') (h' : SameDirectories fs' fs'') :
    SameDirectories fs fs'' :=
  ⟨h'.workingDirectory.trans h.workingDirectory, fun place =>
    (h'.directory_iff place).trans (h.directory_iff place)⟩

/-- The directories are the same as before either way. -/
lemma symm (h : SameDirectories fs fs') : SameDirectories fs' fs :=
  ⟨h.workingDirectory.symm, fun place => (h.directory_iff place).symm⟩

end SameDirectories

/-- A file that is put at `place`, where no directory is, leaves the directories the same. -/
lemma sameDirectories_put (hplace : place ≠ [])
    (hdirectory : fs.tree.get? place ≠ some .directory) (data : ByteArray) :
    SameDirectories fs (fs.put place data) := by
  refine ⟨rfl, fun other => ?_⟩
  rw [get?_tree_put hplace]
  split
  · rename_i h
    subst h
    simp [hdirectory]
  · exact Iff.rfl

/-- A name leads from `dir` to `place` if it is a dot and `place` is `dir`, if it is two dots and
`place` is the parent of `dir`, or if there is a directory at the place of the name. -/
lemma step_eq_ok_iff {dir : Location} {name : String} :
    fs.step dir name = .ok place ↔
      name = "." ∧ place = dir ∨ name = ".." ∧ place = dir.dropLast ∨
        name ≠ "." ∧ name ≠ ".." ∧ child dir name = .ok place ∧
          fs.tree.get? place = some .directory := by
  rw [step]
  split
  · rename_i hname
    subst hname
    simp [eq_comm]
  · rename_i hdot
    split
    · rename_i hname
      subst hname
      simp [eq_comm]
    · rename_i hdots
      simp only [hdot, hdots, false_and, false_or, ne_eq, not_false_eq_true, true_and]
      constructor
      · intro h
        obtain ⟨found, hchild, h⟩ := bind_eq_ok_iff.1 h
        split at h
        · rename_i hfound
          obtain rfl := Except.ok.inj h
          exact ⟨hchild, hfound⟩
        · cases h
        · cases h
      · rintro ⟨hchild, hfound⟩
        refine bind_eq_ok_iff.2 ⟨_, hchild, ?_⟩
        rw [hfound]
        rfl

/-- Names lead from `dir` to `place` if the first leads to some `next`, from which the others lead
to `place`. -/
lemma walk_cons_eq_ok_iff {dir : Location} {name : String} {names : List String} :
    fs.walk dir (name :: names) = .ok place ↔
      ∃ next, fs.step dir name = .ok next ∧ fs.walk next names = .ok place :=
  bind_eq_ok_iff

namespace SameDirectories

variable (h : SameDirectories fs fs')

include h

/-- Names lead from `dir` where they led, if the directories are the same. Induction on `names` with
`step_eq_ok_iff`, which asks for nothing but directories. -/
lemma walk_eq_ok_iff {dir : Location} {names : List String} :
    fs'.walk dir names = .ok place ↔ fs.walk dir names = .ok place := by
  induction names generalizing dir with
  | nil => exact Iff.rfl
  | cons name names ih =>
    simp only [walk_cons_eq_ok_iff, step_eq_ok_iff, h.directory_iff, ih]

/-- Paths start where they started: at the root, or where work is done. -/
lemma origin_eq (path : String) : fs'.origin path = fs.origin path := by
  rw [origin, origin, h.workingDirectory]

/-- Paths end where they ended, if the directories are the same.

**Proof sketch.** The check of a path does not look at the files. The walk to its last name but one
ends where it ended (`walk_eq_ok_iff`), and a last name that means a directory leads where it
led. -/
private lemma target_of_target {target : Target} (htarget : fs.target path = .ok target) :
    fs'.target path = .ok target := by
  obtain ⟨_, hcheck, htarget⟩ := bind_eq_ok_iff.1 htarget
  refine bind_eq_ok_iff.2 ⟨_, hcheck, ?_⟩
  simp only [h.origin_eq] at htarget ⊢
  split at htarget
  · exact htarget
  · obtain ⟨dir, hwalk, htarget⟩ := bind_eq_ok_iff.1 htarget
    refine bind_eq_ok_iff.2 ⟨dir, h.walk_eq_ok_iff.2 hwalk, ?_⟩
    split at htarget
    · rename_i hname
      obtain ⟨last, hstep, htarget⟩ := bind_eq_ok_iff.1 htarget
      rw [if_pos hname]
      refine bind_eq_ok_iff.2 ⟨last, ?_, htarget⟩
      rw [step_eq_ok_iff] at hstep ⊢
      rwa [h.directory_iff]
    · rename_i hname
      rwa [if_neg hname]

/-- **Paths lead to the places for files that they led to**, if the directories of `fs` and `fs'`
are the same. By symmetry one direction is enough: the target is the same (`target_of_target`), and
there is no directory there. -/
theorem names_iff : fs'.Names path place ↔ fs.Names path place := by
  have hnames : ∀ {fs fs' : FileSystem}, SameDirectories fs fs' →
      fs.Names path place → fs'.Names path place := by
    rintro fs fs' h ⟨⟨dir, name, htarget, hchild⟩, hslash, hdirectory⟩
    refine ⟨⟨dir, name, h.target_of_target htarget, hchild⟩, hslash, ?_⟩
    rwa [ne_eq, h.directory_iff]
  exact ⟨hnames h.symm, hnames h⟩

end SameDirectories

/-- Nothing changes but what is at `place` where a file is put there. -/
lemma sameExcept_put (hplace : place ≠ []) (data : ByteArray) :
    SameExcept fs (fs.put place data) [place] := by
  refine ⟨rfl, rfl, fun other hother => ?_⟩
  rw [get?_tree_put hplace, if_neg (by simpa using hother)]

/-- A file that was put at the place of a path is read there with its contents `data`. -/
lemma Names.read_put (h : fs.Names path place) (data : ByteArray) :
    (fs.put place data).read path = .ok data := by
  have hsame := sameDirectories_put h.ne_nil h.notDirectory data
  refine read_eq_ok_iff.2 ⟨place, hsame.names_iff.2 h, ?_⟩
  rw [get?_tree_put h.ne_nil, if_pos rfl]

/-! ## Files in a directory -/

/-- The path leads to the directory at `place`, and no operation refuses it. -/
structure IsDirectory (fs : FileSystem) (path : String) (place : Location) : Prop where
  check : check path = .ok ()
  walk : fs.walk (fs.origin path) (Path.parts path) = .ok place

/-- Paths lead to the directories that they led to. -/
lemma SameDirectories.isDirectory (h : SameDirectories fs fs')
    (hdir : fs.IsDirectory path place) : fs'.IsDirectory path place := by
  refine ⟨hdir.check, ?_⟩
  rw [h.origin_eq]
  exact h.walk_eq_ok_iff.2 hdir.walk

namespace IsDirectory

variable {dir name : String} (hdir : fs.IsDirectory dir place) (hplain : Path.isPlainName name)

include hdir hplain

/-- The path `Path.join dir name` of an entry ends at `name` in the directory, if it is not refused
for its length. -/
private lemma target_join : fs.target (Path.join dir name) =
    (FileSystem.check (Path.join dir name)).map fun _ => .name place name := by
  obtain ⟨-, hdot, hdots, -⟩ := Path.isPlainName_iff.1 hplain
  have horigin : fs.origin (Path.join dir name) = fs.origin dir := by
    rw [origin, origin, Path.isAbsolute_join hplain]
  rw [target]
  cases FileSystem.check (Path.join dir name) with
  | error cause => rfl
  | ok _ =>
    simp only [bind, Except.bind, Path.parts_join hplain, List.getLast?_concat,
      List.dropLast_concat, horigin, hdir.walk, hdot, hdots, or_self, ↓reduceIte]
    rfl

/-- **A file is written into a directory** at the place of its `name` there, if neither the path nor
the name is too long and the name is not that of a directory. So `write` is spelled out as these
three checks, in this order, and then as `put`.

**Proof sketch.** The target of the path is known from `target_join`, and the path does not end with
a slash, since `name` does not. What is left are the checks of `create` for that target; the file is
put there twice, first empty and then with `data`, which is the same as once (`put_put`). -/
theorem write_join (data : ByteArray) : fs.write (Path.join dir name) data =
    (FileSystem.check (Path.join dir name)).bind fun _ => (child place name).bind fun file =>
      if fs.tree.get? file = some .directory then .error .isDirectory
      else .ok (fs.put file data) := by
  rw [write, create, hdir.target_join hplain]
  cases FileSystem.check (Path.join dir name) with
  | error cause => rfl
  | ok _ =>
    simp only [Except.map, Except.bind, bind, Path.hasTrailingSlash_join hplain,
      Bool.false_eq_true, ↓reduceIte]
    cases hchild : child place name with
    | error cause => rfl
    | ok file =>
      have hput : (fs.put file .empty).put file data = fs.put file data := put_put fs file _ data
      simp only
      cases fs.tree.get? file with
      | none => exact congrArg Except.ok hput
      | some entry =>
        cases entry with
        | file old => exact congrArg Except.ok hput
        | directory => rfl

end IsDirectory

end FileSystem

end FirmwareBundle
