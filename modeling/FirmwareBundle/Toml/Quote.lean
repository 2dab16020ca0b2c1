import FirmwareBundle.Text.Hex
import FirmwareBundle.Toml.Cursor
/-!
# Strings of a TOML text

A string stands between quotes, one on each side or three. Between double quotes a backslash starts
an escape; between triple quotes a string may go over several lines, and quotes that are not three
in a row belong to it.

## Main definitions

* `FirmwareBundle.Toml.QuoteForm` — the four forms of strings.
* `FirmwareBundle.Toml.QuoteForm.step` — what one character does inside a string.
* `FirmwareBundle.Toml.string?` — reads a string.
-/

namespace FirmwareBundle.Toml

/-- The form of a string: whether it is `literal`, so that backslashes stand for themselves, and
whether it may go over several lines. -/
structure QuoteForm where
  literal : Bool
  multiline : Bool

/-- What came just before a character inside a string. -/
inductive QuoteState where
  /-- Nothing to remember. -/
  | text
  /-- A carriage return, which a line feed must follow. -/
  | carriageReturn
  /-- Some quotes in a row. -/
  | quotes (count : Nat)
  /-- A backslash. -/
  | escape
  /-- An escape that still needs `left` digits. -/
  | code (left value : Nat)
  /-- A backslash and blanks, which a line break must follow. -/
  | gap
  /-- The same and a carriage return. -/
  | gapReturn
  /-- A line break after a backslash, and white space. -/
  | trim

/-- What a character does inside a string. -/
inductive QuoteStep where
  /-- The string goes on with some more text. -/
  | more (out : List Char) (state : QuoteState)
  /-- The string ends with this character. -/
  | last (out : List Char)
  /-- The string ended before this character. -/
  | ended (out : List Char)

/-- The text `out` in front of what a character adds. -/
def QuoteStep.behind (out : List Char) : QuoteStep → QuoteStep
  | .more added state => .more (out ++ added) state
  | .last added => .last (out ++ added)
  | .ended added => .ended (out ++ added)

/-- The character that the letter `c` behind a backslash stands for. -/
def escape? (c : Char) : Option Char :=
  if c = 'b' then some '\x08'
  else if c = 't' then some '\t'
  else if c = 'n' then some '\n'
  else if c = 'f' then some '\x0c'
  else if c = 'r' then some '\r'
  else if c = '"' then some '"'
  else if c = '\\' then some '\\'
  else none

/-- The character of the number `n`, if it has one. -/
def charOf? (n : Nat) : Option Char :=
  if n.isValidChar then some (Char.ofNat n) else none

namespace QuoteForm

/-- The quote that stands around a string of the `form`. -/
def quote (form : QuoteForm) : Char :=
  if form.literal then '\'' else '"'

/-- What `c` does after plain text. -/
def stepText (form : QuoteForm) (c : Char) : Option QuoteStep :=
  if c = form.quote then
    some (if form.multiline then .more [] (.quotes 1) else .last [])
  else if c = '\\' ∧ ¬ form.literal then some (.more [] .escape)
  else if c = '\n' ∧ form.multiline then some (.more ['\n'] .text)
  else if c = '\r' ∧ form.multiline then some (.more [] .carriageReturn)
  else if isTextChar c then some (.more [c] .text)
  else none

/-- What `c` does behind a backslash and perhaps blanks, if it is white space. -/
def stepGap (form : QuoteForm) (c : Char) : Option QuoteStep :=
  if ¬ form.multiline then none
  else if isBlank c then some (.more [] .gap)
  else if c = '\n' then some (.more [] .trim)
  else if c = '\r' then some (.more [] .gapReturn)
  else none

/-- What `c` does behind a backslash. -/
def stepEscape (form : QuoteForm) (c : Char) : Option QuoteStep :=
  match escape? c with
  | some x => some (.more [x] .text)
  | none =>
    if c = 'u' then some (.more [] (.code 4 0))
    else if c = 'U' then some (.more [] (.code 8 0))
    else form.stepGap c

/-- What the digit `c` does in an escape that needs `left` more digits and spells `value` so far. -/
def stepCode (left value : Nat) (c : Char) : Option QuoteStep :=
  match Hex.digit? c with
  | none => none
  | some d =>
    if left ≤ 1 then (charOf? (16 * value + d)).map fun x => .more [x] .text
    else some (.more [] (.code (left - 1) (16 * value + d)))

/-- What a character does inside a string, by what came before it. -/
def step (form : QuoteForm) : QuoteState → Char → Option QuoteStep
  | .text, c => form.stepText c
  | .carriageReturn, c => if c = '\n' then some (.more ['\n'] .text) else none
  | .quotes n, c =>
    if c = form.quote then
      some (if n = 4 then .last [c, c] else .more [] (.quotes (n + 1)))
    else if n < 3 then
      (form.stepText c).map (·.behind (List.replicate n form.quote))
    else some (.ended (List.replicate (n - 3) form.quote))
  | .escape, c => form.stepEscape c
  | .code left value, c => stepCode left value c
  | .gap, c => form.stepGap c
  | .gapReturn, c => if c = '\n' then some (.more [] .trim) else none
  | .trim, c =>
    if isBlank c ∨ c = '\n' then some (.more [] .trim)
    else if c = '\r' then some (.more [] .gapReturn)
    else form.stepText c

/-- Reads a string from behind its opening quotes; `acc` is what it holds so far, reversed. -/
def readFrom (form : QuoteForm) :
    QuoteState → List Char → (offset : Nat) → (acc : List Char) → Option (String × Cursor)
  | .quotes n, [], offset, acc =>
    if n < 3 then none
    else
      some (String.ofList (acc.reverse ++ List.replicate (n - 3) form.quote), ⟨[], offset⟩)
  | _, [], _, _ => none
  | state, c :: rest, offset, acc =>
    match form.step state c with
    | none => none
    | some (.more out state) =>
      form.readFrom state rest (offset + c.utf8Size) (out.reverse ++ acc)
    | some (.last out) =>
      some (String.ofList (acc.reverse ++ out), ⟨rest, offset + c.utf8Size⟩)
    | some (.ended out) => some (String.ofList (acc.reverse ++ out), ⟨c :: rest, offset⟩)

end QuoteForm

/-- Reads a string on one line, at its opening quote. -/
def shortString? (here : Cursor) : Option (String × Cursor) :=
  match here.rest with
  | '"' :: rest => QuoteForm.readFrom ⟨false, false⟩ .text rest (here.offset + 1) []
  | '\'' :: rest => QuoteForm.readFrom ⟨true, false⟩ .text rest (here.offset + 1) []
  | _ => none

/-- Reads a string between triple quotes from behind them; a line break right there is passed over.
Backslashes stand for themselves if it is `literal`. -/
def longString? (literal : Bool) (here : Cursor) : Option (String × Cursor) :=
  let start := here.newline?.getD here
  QuoteForm.readFrom ⟨literal, true⟩ .text start.rest start.offset []

/-- Reads a string of any form. -/
def string? (here : Cursor) : Option (String × Cursor) :=
  match here.rest with
  | '"' :: '"' :: '"' :: rest => longString? false ⟨rest, here.offset + 3⟩
  | '\'' :: '\'' :: '\'' :: rest => longString? true ⟨rest, here.offset + 3⟩
  | _ => shortString? here

end FirmwareBundle.Toml
