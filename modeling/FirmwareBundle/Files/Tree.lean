/-!
# Trees of files

A tree says what is at each place. The root is always a directory.

## Main definitions

* `FirmwareBundle.FileTree` — the trees, without links.
* `FirmwareBundle.FileTree.get?` — what is at a place.
* `FirmwareBundle.FileTree.put`, `FirmwareBundle.FileTree.erase` — one place changed.
-/

namespace FirmwareBundle

/-- What can be at a place. -/
inductive FileEntry where
  | file (data : ByteArray)
  | directory

instance : DecidableEq FileEntry
  | .file x, .file y =>
    match ByteArray.instDecidableEq x y with
    | isTrue h => isTrue (congrArg FileEntry.file h)
    | isFalse h => isFalse fun e => h (FileEntry.file.inj e)
  | .directory, .directory => isTrue rfl
  | .file _, .directory => isFalse nofun
  | .directory, .file _ => isFalse nofun

/-- A place: the names of the directories on the way from the root, then the name there. -/
abbrev Location := List String

/-- A tree of files: its entries below the root, each place at most once. -/
structure FileTree where
  entries : List (Location × FileEntry) := []

namespace FileTree

/-- What is at a `place` of the `tree`. -/
def get? (tree : FileTree) (place : Location) : Option FileEntry :=
  if place = [] then some .directory else tree.entries.lookup place

/-- The `tree` without what is at a `place`. -/
def erase (tree : FileTree) (place : Location) : FileTree :=
  ⟨tree.entries.filter (·.1 != place)⟩

/-- The `tree` with an `entry` put at a `place`. -/
def put (tree : FileTree) (place : Location) (entry : FileEntry) : FileTree :=
  ⟨(place, entry) :: (tree.erase place).entries⟩

end FileTree

end FirmwareBundle
