/-!
# Pointing at a place in a TOML text

A message on a value shows the line that it stands on, with marks under the value.

## Main definitions

* `FirmwareBundle.Toml.Diagnostic` — a message and its place.
* `FirmwareBundle.Toml.Diagnostic.ofSpan` — the place of a span of bytes.
* `FirmwareBundle.Toml.Diagnostic.text` — the message with its line.
-/

namespace FirmwareBundle.Toml

/-- A part of a text, in bytes. -/
structure Span where
  first : Nat
  last : Nat
  deriving DecidableEq

/-- A message on a part of a line. Lines and columns count from zero. -/
structure Diagnostic where
  line : Nat
  column : Nat
  content : String
  marks : Nat
  message : String

namespace Diagnostic

/-- The line that holds `byte`: its number, the byte it starts at, and its text. The first of the
lines has the number `number` and starts at `start`; the last line holds every byte past the end. -/
def lineAt (byte : Nat) : (number start : Nat) → List String → Nat × Nat × String
  | number, start, [] => (number, start, "")
  | number, start, [last] => (number, start, last)
  | number, start, line :: lines =>
    if byte ≤ start + line.utf8ByteSize then (number, start, line)
    else lineAt byte (number + 1) (start + line.utf8ByteSize + 1) lines

/-- The number of characters in the first `bytes` bytes of a line. -/
def columnAt : (bytes : Nat) → List Char → Nat
  | 0, _ => 0
  | _, [] => 0
  | bytes, c :: rest => columnAt (bytes - c.utf8Size) rest + 1

/-- The diagnostic of a `span` of `text` with its `message`. -/
def ofSpan (text : String) (span : Span) (message : String) : Diagnostic :=
  let (line, start, content) := lineAt span.first 0 0 (text.splitOn "\n")
  let column := columnAt (span.first - start) content.toList
  let marks := max 1 (min (span.last - span.first) (content.utf8ByteSize - column))
  ⟨line, column, content, marks, message⟩

/-- The character `c`, `n` times. -/
def repeated (c : Char) (n : Nat) : String :=
  String.ofList (List.replicate n c)

/-- The message of `d` with its line and the marks under it. -/
def text (d : Diagnostic) : String :=
  let number := toString (d.line + 1)
  let margin := repeated ' ' (number.length + 1) ++ "|"
  "TOML parse error at line " ++ number ++ ", column " ++ toString (d.column + 1) ++ "\n" ++
    margin ++ "\n" ++
    number ++ " | " ++ d.content ++ "\n" ++
    margin ++ repeated ' ' (d.column + 1) ++ repeated '^' d.marks ++ "\n" ++
    d.message ++ "\n"

end Diagnostic

end FirmwareBundle.Toml
