/-!
# A place in a TOML text

## Main definitions

* `FirmwareBundle.Toml.Cursor` — the text that is left, and the number of bytes before it.
* `FirmwareBundle.Toml.Cursor.lineEnd?` — passes over what may stand behind a statement.
* `FirmwareBundle.Toml.Cursor.gaps?` — passes over what may stand between the items of an array.
-/

namespace FirmwareBundle.Toml

/-! ## Characters -/

/-- Whether `c` separates words on a line. -/
def isBlank (c : Char) : Bool :=
  c == ' ' || c == '\t'

/-- Whether `c` may stand in comments and in quotes: all but control characters, and the tabulator
among these. Characters outside of seven bits are never control characters here. -/
def isTextChar (c : Char) : Bool :=
  c == '\t' || (' ' ≤ c && c ≤ '~') || '\x7f' < c

/-! ## Cursors -/

/-- A place in a text: what is left, and how many bytes came before. -/
structure Cursor where
  rest : List Char
  offset : Nat

namespace Cursor

/-- The place before `text`. -/
def start (text : String) : Cursor :=
  ⟨text.toList, 0⟩

/-- Passes over the characters up to the first that fails the test `p`, and gives them back. -/
def takeWhile (p : Char → Bool) (here : Cursor) : List Char × Cursor :=
  let taken := here.rest.takeWhile p
  (taken, ⟨here.rest.dropWhile p, taken.foldl (fun n c => n + c.utf8Size) here.offset⟩)

/-- Passes over blanks. -/
def blanks (here : Cursor) : Cursor :=
  (here.takeWhile isBlank).2

/-- Passes over the character `mark`, which must be there. -/
def skip? (mark : Char) (here : Cursor) : Option Cursor :=
  match here.rest with
  | c :: rest => if c = mark then some ⟨rest, here.offset + c.utf8Size⟩ else none
  | [] => none

/-- Passes over a line break in one of its two spellings. -/
def newline? (here : Cursor) : Option Cursor :=
  match here.rest with
  | '\n' :: rest => some ⟨rest, here.offset + 1⟩
  | '\r' :: '\n' :: rest => some ⟨rest, here.offset + 2⟩
  | _ => none

/-- Passes over a comment, if there is one. -/
def comment (here : Cursor) : Cursor :=
  match here.skip? '#' with
  | some inside => (inside.takeWhile isTextChar).2
  | none => here

/-- Passes over blanks, a comment and a line break; the end of the text also ends a line. -/
def lineEnd? (here : Cursor) : Option Cursor :=
  let here := here.blanks.comment
  if here.rest.isEmpty then some here else here.newline?

/-- Passes over blanks, comments and line breaks; each comment must end with its line. Every round
takes a character, so the length of the rest is enough fuel. -/
def gapsWithin? : (fuel : Nat) → Cursor → Option Cursor
  | 0, here => some here
  | fuel + 1, here =>
    let here := here.blanks
    match here.rest with
    | '#' :: _ => here.comment.newline?.bind (gapsWithin? fuel)
    | '\n' :: _ | '\r' :: _ => here.newline?.bind (gapsWithin? fuel)
    | _ => some here

/-- Passes over what may stand between the items of an array. -/
def gaps? (here : Cursor) : Option Cursor :=
  gapsWithin? (here.rest.length + 1) here

end Cursor

end FirmwareBundle.Toml
