/-!
# Characters of a YAML stream

Which characters a stream may hold, which of them separate words and lines, and the one form
that line breaks are brought into before anything else is read.

## Main definitions

* `FirmwareBundle.Yaml.isAllowed` — the characters a stream may hold.
* `FirmwareBundle.Yaml.isBlank`, `FirmwareBundle.Yaml.isBreak` — white space within and between
  lines.
* `FirmwareBundle.Yaml.unifyBreaks` — the breaks of all systems as one line feed.
* `FirmwareBundle.Yaml.Position` — where in the stream a character stands.
-/

namespace FirmwareBundle.Yaml

/-- The next line character, a break like the line feed. -/
def nextLine : Char := '\u0085'

/-- The line separator, a break that folding leaves in place. -/
def lineSeparator : Char := '\u2028'

/-- The paragraph separator, a break that folding leaves in place. -/
def paragraphSeparator : Char := '\u2029'

/-- The byte order mark. -/
def byteOrderMark : Char := '\ufeff'

/-- Whether a stream may hold `c`: no control but tab, line feed, carriage return and next line, and
neither of the two noncharacters that end the first plane. -/
def isAllowed (c : Char) : Bool :=
  let n := c.toNat
  n == 0x09 || n == 0x0a || n == 0x0d || (0x20 ≤ n && n ≤ 0x7e) || n == 0x85 ||
    (0xa0 ≤ n && n ≤ 0xd7ff) || (0xe000 ≤ n && n ≤ 0xfffd) || 0x10000 ≤ n

/-- Whether `c` is a space or a tab. -/
def isBlank (c : Char) : Bool :=
  c == ' ' || c == '\t'

/-- Whether `c` is a break, once breaks are unified. -/
def isBreak (c : Char) : Bool :=
  c == '\n' || c == lineSeparator || c == paragraphSeparator

/-- Whether `c` may stand in a name: ASCII letters and digits, the hyphen and the underscore. -/
def isWordChar (c : Char) : Bool :=
  c.isAlphanum || c == '-' || c == '_'

/-- Whether the text is over or goes on with white space. -/
def startsBlank : List Char → Bool
  | [] => true
  | c :: _ => isBlank c || isBreak c

/-- Whether the text starts with three times `mark` and nothing but white space follows. -/
def startsDocumentMark (mark : Char) : List Char → Bool
  | a :: b :: c :: rest => a == mark && b == mark && c == mark && startsBlank rest
  | _ => false

/-- Whether `text` starts with the mark that opens or the mark that closes a document. -/
def atDocumentMark (text : List Char) : Bool :=
  startsDocumentMark '-' text || startsDocumentMark '.' text

/-- Every carriage return, alone or before a line feed, and every next line character becomes a
line feed. -/
def unifyBreaks : List Char → List Char
  | '\r' :: '\n' :: rest => '\n' :: unifyBreaks rest
  | c :: rest => (if c == '\r' || c == nextLine then '\n' else c) :: unifyBreaks rest
  | [] => []

/-! ## Positions -/

/-- The number of characters before a place, of lines, and of characters on its line. -/
structure Position where
  index : Nat
  line : Nat
  column : Nat
  deriving DecidableEq

namespace Position

/-- The start of a stream. -/
def start : Position := ⟨0, 0, 0⟩

/-- The place `n` characters on, on the same line. -/
def advance (p : Position) (n : Nat) : Position :=
  ⟨p.index + n, p.line, p.column + n⟩

/-- The place after a break that stands at `p`. -/
def newline (p : Position) : Position :=
  ⟨p.index + 1, p.line + 1, 0⟩

end Position

/-- The `value` that a reader found, the `position` where it stopped, and the `rest` that it
left. -/
structure Read (α : Type) where
  value : α
  position : Position
  rest : List Char

end FirmwareBundle.Yaml
