import FirmwareBundle.Files.Fault
import FirmwareBundle.Files.Path
import FirmwareBundle.Files.Tree
/-!
# File operations

A path is followed name by name from the root or from the working directory. The operations below
either have their whole effect or fail and have none.

## Main definitions

* `FirmwareBundle.FileSystem` — a tree of files with a working directory.
* `FirmwareBundle.FileSystem.walk` — the directory that names lead to.
* `FirmwareBundle.FileSystem.read`, `FirmwareBundle.FileSystem.create`,
  `FirmwareBundle.FileSystem.write` — reading and writing a file.
* `FirmwareBundle.FileSystem.move` — a file put in the place of another.
* `FirmwareBundle.FileSystem.stage` — a new file in a directory, under a name that is not taken.
* `FirmwareBundle.FileSystem.replace` — a file written aside and then moved into its place.
-/

namespace FirmwareBundle

/-- A tree of files with a working directory. New names are made with the first of `suffixes` that
is not taken. -/
structure FileSystem where
  tree : FileTree
  workingDirectory : Location
  suffixes : List String

/-- The greatest number of bytes of a name. -/
def maxNameLength : Nat := 255

/-- The greatest number of bytes of a path. -/
def maxPathLength : Nat := 4095

namespace FileSystem

/-! ## Following paths -/

/-- The path of the working directory of `fs`. -/
def workingPath (fs : FileSystem) : String :=
  Path.ofPlace fs.workingDirectory

/-- Refuses a `path` that no operation takes: one with a zero character, the empty one, and one that
is too long. -/
def check (path : String) : Except IoFault Unit :=
  if path.toList.contains '\x00' then .error .zeroInPath
  else if path = "" then .error .notFound
  else if maxPathLength < path.utf8ByteSize then .error .nameTooLong
  else .ok ()

/-- The place of a `name` in the directory `dir`. Whether anything is there is not looked at. -/
def child (dir : Location) (name : String) : Except IoFault Location :=
  if maxNameLength < name.utf8ByteSize then .error .nameTooLong else .ok (dir ++ [name])

/-- The directory that one `name` leads to from the directory `dir`. -/
def step (fs : FileSystem) (dir : Location) (name : String) : Except IoFault Location :=
  if name = "." then .ok dir
  else if name = ".." then .ok dir.dropLast
  else do
    let place ← child dir name
    match fs.tree.get? place with
    | some .directory => pure place
    | some (.file _) => throw .notDirectory
    | none => throw .notFound

/-- The directory that `names` lead to from the directory `dir`, one after the other. -/
def walk (fs : FileSystem) (dir : Location) (names : List String) : Except IoFault Location :=
  names.foldlM fs.step dir

/-- The directory that `path` starts from. -/
def origin (fs : FileSystem) (path : String) : Location :=
  if Path.isAbsolute path then [] else fs.workingDirectory

/-- Where a path ends: in a directory itself, or at a name in a directory. -/
inductive Target where
  | directory (place : Location)
  | name (dir : Location) (name : String)

/-- Follows `path` up to its last name. A dot or two dots there are followed, too. -/
def target (fs : FileSystem) (path : String) : Except IoFault Target := do
  check path
  let names := Path.parts path
  match names.getLast? with
  | none => pure (.directory (fs.origin path))
  | some name =>
    let dir ← fs.walk (fs.origin path) names.dropLast
    if name = "." ∨ name = ".." then pure (.directory (← fs.step dir name))
    else pure (.name dir name)

/-! ## Reading -/

/-- The contents of the file at `path`. -/
def read (fs : FileSystem) (path : String) : Except IoFault ByteArray := do
  match ← fs.target path with
  | .directory _ => throw .isDirectory
  | .name dir name =>
    let place ← child dir name
    match fs.tree.get? place with
    | none => throw .notFound
    | some .directory => throw .isDirectory
    | some (.file data) => if Path.hasTrailingSlash path then throw .notDirectory else pure data

/-- The contents of the file of text at `path`. -/
def readText (fs : FileSystem) (path : String) : Except IoFault String := do
  let data ← fs.read path
  match String.fromUTF8? data with
  | some text => pure text
  | none => throw .notText

/-- Whether `path` leads to a file. -/
def isFile (fs : FileSystem) (path : String) : Bool :=
  (fs.read path).toBool

/-! ## Writing -/

/-- The file system `fs` with a file of `data` put at a `place`. -/
def put (fs : FileSystem) (place : Location) (data : ByteArray) : FileSystem :=
  { fs with tree := fs.tree.put place (.file data) }

/-- Makes an empty file at `path`, or empties the one that is there, and gives its place. -/
def create (fs : FileSystem) (path : String) : Except IoFault (Location × FileSystem) := do
  match ← fs.target path with
  | .directory _ => throw .isDirectory
  | .name dir name =>
    if Path.hasTrailingSlash path then throw .isDirectory
    let place ← child dir name
    match fs.tree.get? place with
    | some .directory => throw .isDirectory
    | _ => pure (place, fs.put place .empty)

/-- Writes a file of `data` at `path`, in place of what was there. -/
def write (fs : FileSystem) (path : String) (data : ByteArray) : Except IoFault FileSystem := do
  let (place, fs) ← fs.create path
  pure (fs.put place data)

/-- Writes `data` at the end of the file at a `place`. -/
def append (fs : FileSystem) (place : Location) (data : ByteArray) : FileSystem :=
  match fs.tree.get? place with
  | some (.file old) => fs.put place (old ++ data)
  | _ => fs.put place data

/-! ## Moving -/

/-- Puts the file at the place `source` into the place that `path` names, and takes it away from
`source`. -/
def move (fs : FileSystem) (source : Location) (path : String) : Except IoFault FileSystem := do
  match ← fs.target path with
  | .directory _ => throw .busy
  | .name dir name =>
    let place ← child dir name
    if Path.hasTrailingSlash path then throw .notDirectory
    match fs.tree.get? place, fs.tree.get? source with
    | some .directory, _ => throw .isDirectory
    | _, some entry => pure { fs with tree := (fs.tree.erase source).put place entry }
    | _, none => throw .notFound

/-- What the names of files that are written aside start with. -/
def stagingName : String := ".fwbundle"

/-- Writes a new file of `data` in the directory `dir`, under a name that is not taken, and gives
its place. A fault is told with the path of the file. -/
def stage (fs : FileSystem) (dir : String) (data : ByteArray) :
    Except IoFault (Location × FileSystem) := do
  let path (suffix : String) := Path.join (Path.join fs.workingPath dir) (stagingName ++ suffix)
  let fault (cause : IoFault) := IoFault.staging cause (path (fs.suffixes.headD ""))
  let place ← (do
    check (path (fs.suffixes.headD ""))
    fs.walk (fs.origin dir) (Path.parts dir)).mapError fault
  match fs.suffixes.find? fun suffix =>
      (fs.tree.get? (place ++ [stagingName ++ suffix])).isNone with
  | none => throw (fault (.described "too many temporary files exist"))
  | some suffix =>
    let file := place ++ [stagingName ++ suffix]
    pure (file, fs.put file data)

/-- The path of the directory in which the file for `path` is written aside. -/
def stagingDirectory (path : String) : String :=
  match Path.parent? path with
  | none => "."
  | some dir => if dir = "" then "." else dir

/-- Writes `data` aside, in the directory that the file at `path` belongs to, and moves it into its
place. -/
def replace (fs : FileSystem) (path : String) (data : ByteArray) : Except IoFault FileSystem := do
  let (file, staged) ← fs.stage (stagingDirectory path) data
  staged.move file path

end FileSystem

end FirmwareBundle
