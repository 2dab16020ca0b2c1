/-!
# Paths as texts

A path names a file by the directories on the way to it. Only the text is looked at here, not what
is there.

## Main definitions

* `FirmwareBundle.Path.parts` — the names that a path goes through.
* `FirmwareBundle.Path.join` — a path inside a directory.
* `FirmwareBundle.Path.parent?` — the path of the directory that a file is in.
* `FirmwareBundle.Path.place` — the place that a path names, by its text alone.
-/

namespace FirmwareBundle.Path

/-- Whether `path` starts at the root. -/
def isAbsolute (path : String) : Bool :=
  path.toList.head? == some '/'

/-- Whether `path` ends with a slash, so that only a directory can be meant. -/
def hasTrailingSlash (path : String) : Bool :=
  path.toList.getLast? == some '/'

/-- A text cut at every slash. -/
def pieces : List Char → List (List Char)
  | [] => [[]]
  | '/' :: rest => [] :: pieces rest
  | c :: rest =>
    match pieces rest with
    | piece :: more => (c :: piece) :: more
    | [] => [[c]]

/-- The names that `path` goes through. Slashes in a row count as one. -/
def parts (path : String) : List String :=
  ((pieces path.toList).filter (· ≠ [])).map String.ofList

/-- The path `path` inside the directory `dir`. An absolute path stays as it is, and no slash is
added behind one. -/
def join (dir path : String) : String :=
  if isAbsolute path then path
  else if dir = "" ∨ hasTrailingSlash dir then dir ++ path
  else dir ++ "/" ++ path

/-- Whether a `piece` of a path leads nowhere: it is empty or a dot. -/
def isVoid (piece : List Char) : Bool :=
  piece.isEmpty || piece == ['.']

/-- A path cut into the mark it starts with, which is a slash or the name of the working directory
itself, and the rest. -/
def splitHead : List Char → List Char × List Char
  | '/' :: rest => (['/'], rest)
  | ['.'] => (['.'], [])
  | '.' :: '/' :: rest => (['.'], '/' :: rest)
  | rest => ([], rest)

/-- The `pieces` put together again with slashes. -/
def unpieces (pieces : List (List Char)) : List Char :=
  ['/'].intercalate pieces

/-- The path of the directory that the file at `path` is in. The root and the empty path have none.
The result is the beginning of the text of `path` itself. -/
def parent? (path : String) : Option String :=
  let (head, rest) := splitHead path.toList
  match (pieces rest).reverse.dropWhile isVoid with
  | [] => if head = ['.'] then some "" else none
  | _ :: before =>
    some (String.ofList (head ++ unpieces (before.dropWhile isVoid).reverse))

/-- The place that `path` names by its text alone, seen from the directory `origin`. -/
def place (origin : List String) (path : String) : List String :=
  (parts path).foldl (fun place name =>
    if name = "." then place else if name = ".." then place.dropLast else place ++ [name])
    (if isAbsolute path then [] else origin)

/-- The absolute path of a `place`. -/
def ofPlace (place : List String) : String :=
  "/" ++ "/".intercalate place

/-- Whether `name` can only mean an entry of the directory that it is looked up in. -/
def isPlainName (name : String) : Bool :=
  name != "" && name != "." && name != ".." &&
    name.toList.all fun c => c != '/' && c != '\\' && c != '\x00'

end FirmwareBundle.Path
