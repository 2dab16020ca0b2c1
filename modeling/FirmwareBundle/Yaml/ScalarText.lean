import FirmwareBundle.Text.Hex
import FirmwareBundle.Yaml.Character
/-!
# The text of a scalar

A scalar is written between quotes, plainly, or as an indented block. In the first two a single
line break counts as a space and further breaks are kept; a block keeps its lines or folds them.

## Main definitions

* `FirmwareBundle.Yaml.Gap` — the white space between two words of a scalar.
* `FirmwareBundle.Yaml.escape?` — what a backslash stands for between double quotes.
* `FirmwareBundle.Yaml.readQuoted` — the text up to the closing quote.
* `FirmwareBundle.Yaml.readPlain` — the text of a plain scalar.
* `FirmwareBundle.Yaml.readBlock` — the text of an indented block.
-/

namespace FirmwareBundle.Yaml

/-! ## White space between words -/

/-- The white space since the last word: none, blanks of one line, or breaks. Blanks and the
breaks after the first are held in reverse. -/
inductive Gap where
  | none
  | blanks (text : List Char)
  | breaks (first more : List Char)
  deriving DecidableEq

namespace Gap

/-- The gap `g` and the blank `c`, which counts only if no break came before it. -/
def blank (g : Gap) (c : Char) : Gap :=
  match g with
  | none => blanks [c]
  | blanks text => blanks (c :: text)
  | breaks first more => breaks first more

/-- The gap `g` and the break `c`, which drops the blanks before it. -/
def newline (g : Gap) (c : Char) : Gap :=
  match g with
  | none => breaks [c] []
  | blanks _ => breaks [c] []
  | breaks first more => breaks first (c :: more)

/-- Whether a break was seen. -/
def isBroken : Gap → Bool
  | breaks .. => true
  | _ => false

/-- What the gap stands for: its blanks, a space for a lone line feed, else the breaks after the
first, and the first too unless it is a line feed. -/
def text : Gap → List Char
  | none => []
  | blanks text => text.reverse
  | breaks first more =>
    if first = ['\n'] then (if more.isEmpty then [' '] else more.reverse)
    else first ++ more.reverse

end Gap

/-! ## Text between quotes -/

/-- The character that a one-letter escape stands for. -/
def letterEscape? : Char → Option Char
  | '0' => some '\x00'
  | 'a' => some '\x07'
  | 'b' => some '\x08'
  | 't' => some '\t'
  | '\t' => some '\t'
  | 'n' => some '\n'
  | 'v' => some '\x0b'
  | 'f' => some '\x0c'
  | 'r' => some '\r'
  | 'e' => some '\x1b'
  | ' ' => some ' '
  | '"' => some '"'
  | '/' => some '/'
  | '\\' => some '\\'
  | 'N' => some nextLine
  | '_' => some '\u00a0'
  | 'L' => some lineSeparator
  | 'P' => some paragraphSeparator
  | _ => none

/-- The number of hexadecimal digits after the letter of a numeric escape. -/
def numericEscape? : Char → Option Nat
  | 'x' => some 2
  | 'u' => some 4
  | 'U' => some 8
  | _ => none

/-- The character of the code point `n`, if there is one. -/
def charOf? (n : Nat) : Option Char :=
  if h : n.isValidChar then some (Char.ofNatAux n h) else none

/-- The character that the text after a backslash stands for, and how many characters it takes. -/
def escape? : List Char → Option (Char × Nat)
  | [] => none
  | c :: rest =>
    match letterEscape? c with
    | some x => some (x, 1)
    | none => do
      let width ← numericEscape? c
      let digits := rest.take width
      guard (digits.length = width)
      let x ← charOf? (← Hex.toNat? digits)
      pure (x, width + 1)

/-- Reads up to the closing quote. The first `skip` characters belong to an escape that is already
read; `acc` is the text so far in reverse. -/
def quotedFrom (single : Bool) :
    List Char → Position → (skip : Nat) → Gap → (acc : List Char) → Option (Read (List Char))
  | [], _, _, _, _ => none
  | _ :: rest, p, skip + 1, gap, acc => quotedFrom single rest p skip gap acc
  | c :: rest, p, 0, gap, acc =>
    if p.column = 0 ∧ atDocumentMark (c :: rest) then none
    else if isBlank c then quotedFrom single rest (p.advance 1) 0 (gap.blank c) acc
    else if isBreak c then quotedFrom single rest p.newline 0 (gap.newline c) acc
    else
      let acc := gap.text.reverse ++ acc
      if c = (if single then '\'' else '"') then
        if single ∧ rest.head? = some '\'' then
          quotedFrom single rest (p.advance 2) 1 .none ('\'' :: acc)
        else some ⟨acc.reverse, p.advance 1, rest⟩
      else if ¬ single ∧ c = '\\' then
        if rest.head?.any isBreak then
          quotedFrom single rest p.newline 1 (.breaks [] []) acc
        else
          match escape? rest with
          | none => none
          | some (x, n) => quotedFrom single rest (p.advance (n + 1)) n .none (x :: acc)
      else quotedFrom single rest (p.advance 1) 0 .none (c :: acc)

/-- Reads a quoted scalar from after its opening quote. A quote is doubled between `single` quotes;
backslashes escape between double quotes; a document mark on the way is refused. -/
def readQuoted (single : Bool) (text : List Char) (p : Position) : Option (Read (List Char)) :=
  quotedFrom single text p 0 .none []

/-! ## Plain text -/

/-- Whether `c` is one of the marks of flow collections. -/
def isFlowMark (c : Char) : Bool :=
  c == ',' || c == '[' || c == ']' || c == '{' || c == '}'

/-- Reads on in a plain scalar; `acc` is the text so far in reverse. The second value tells
whether a break follows the text. -/
def plainFrom (inFlow : Bool) (indent : Nat) :
    List Char → Position → Gap → (acc : List Char) → Option (Read (List Char × Bool))
  | [], p, gap, acc => some ⟨(acc.reverse, gap.isBroken), p, []⟩
  | c :: rest, p, gap, acc =>
    if isBlank c then
      if gap.isBroken ∧ p.column < indent ∧ c = '\t' then none
      else plainFrom inFlow indent rest (p.advance 1) (gap.blank c) acc
    else if isBreak c then plainFrom inFlow indent rest p.newline (gap.newline c) acc
    else if gap ≠ .none ∧ (¬ inFlow ∧ p.column < indent ∨
        p.column = 0 ∧ atDocumentMark (c :: rest) ∨ c = '#') then
      some ⟨(acc.reverse, gap.isBroken), p, c :: rest⟩
    else if inFlow ∧ c = ':' ∧ rest.head?.any (fun d => isFlowMark d || d == '?') then none
    else if c = ':' ∧ startsBlank rest ∨ inFlow ∧ isFlowMark c then
      some ⟨(acc.reverse, gap.isBroken), p, c :: rest⟩
    else plainFrom inFlow indent rest (p.advance 1) .none (c :: (gap.text.reverse ++ acc))

/-- Reads a plain scalar. It ends before a comment, before a colon that white space follows,
before a flow mark in a flow collection, at a document mark, and outside flow collections at a
line indented less than `indent`. -/
def readPlain (inFlow : Bool) (indent : Nat) (text : List Char) (p : Position) :
    Option (Read (List Char × Bool)) :=
  plainFrom inFlow indent text p .none []

/-! ## Block text -/

/-- What becomes of the breaks at the end of a block. -/
inductive Chomp where
  | strip
  | clip
  | keep
  deriving DecidableEq

/-- How a block is to be read: its tail, and its indentation beyond the parent's, zero if that is
to be found from the text. -/
structure BlockHeader where
  chomp : Chomp
  increment : Nat

/-- The tail that a mark asks for. -/
def chompMark? : Char → Option Chomp
  | '+' => some .keep
  | '-' => some .strip
  | _ => none

/-- The digit `c` of an indentation mark. -/
def indentMark? (c : Char) : Option Nat :=
  if c.isDigit then some (c.toNat - '0'.toNat) else none

/-- Reads the marks that `text` has after the sign of a block, in either order, each at most once;
gives how many there are too. An indentation of zero is refused. -/
def blockHeader? (text : List Char) : Option (BlockHeader × Nat) :=
  let first := text.head?
  let second := text.tail.head?
  let found : BlockHeader × Nat :=
    match first.bind chompMark? with
    | some chomp =>
      match second.bind indentMark? with
      | some n => (⟨chomp, n⟩, 2)
      | none => (⟨chomp, 0⟩, 1)
    | none =>
      match first.bind indentMark? with
      | some n =>
        match second.bind chompMark? with
        | some chomp => (⟨chomp, n⟩, 2)
        | none => (⟨.clip, n⟩, 1)
      | none => (⟨.clip, 0⟩, 0)
  if (text.take found.2).contains '0' then none else some found

/-- Passes over the indentation of empty lines and their breaks. If `search` holds any indentation
is passed over, else at most `indent` columns; a tab inside it is refused. Gives the widest
indentation and the breaks, in reverse. -/
def blockBreaks (search : Bool) (indent : Nat) :
    List Char → Position → (widest : Nat) → (acc : List Char) → Option (Read (Nat × List Char))
  | [], p, widest, acc => some ⟨(max widest p.column, acc), p, []⟩
  | c :: rest, p, widest, acc =>
    if (search ∨ p.column < indent) ∧ c = ' ' then
      blockBreaks search indent rest (p.advance 1) widest acc
    else if (search ∨ p.column < indent) ∧ c = '\t' then none
    else if isBreak c then
      blockBreaks search indent rest p.newline (max widest p.column) (c :: acc)
    else some ⟨(max widest p.column, acc), p, c :: rest⟩

/-- Reads the lines of a block. `lead` is the break before the line, `breaks` the empty lines after
it in reverse, `spaced` whether the line before began with a blank, `acc` the text so far in
reverse. A line takes at least one character, so `fuel` need not exceed the length of the text. -/
def blockLines (literal : Bool) (chomp : Chomp) (indent : Nat) :
    (fuel : Nat) → List Char → Position → (lead breaks : List Char) → (spaced : Bool) →
    (acc : List Char) → Option (Read (List Char))
  | 0, rest, p, lead, breaks, _, acc => some (tail rest p lead breaks acc)
  | fuel + 1, rest, p, lead, breaks, spaced, acc =>
    match rest with
    | [] => some (tail rest p lead breaks acc)
    | c :: _ =>
      if p.column = indent then
        let blank := isBlank c
        let join :=
          if ¬ literal ∧ lead = ['\n'] ∧ ¬ spaced ∧ ¬ blank then
            if breaks.isEmpty then [' '] else []
          else lead
        let line := rest.takeWhile (fun d => !isBreak d)
        let acc := line.reverse ++ (breaks ++ (join.reverse ++ acc))
        match rest.dropWhile (fun d => !isBreak d) with
        | [] => some (tail [] (p.advance line.length) [] [] acc)
        | b :: rest =>
          match blockBreaks false indent rest (p.advance line.length).newline 0 [] with
          | none => none
          | some next =>
            blockLines literal chomp indent fuel next.rest next.position [b] next.value.2 blank acc
      else some (tail rest p lead breaks acc)
where
  /-- The text with the breaks at its end as `chomp` says. -/
  tail (rest : List Char) (p : Position) (lead breaks acc : List Char) : Read (List Char) :=
    let last := if chomp = .strip then [] else lead
    let more := if chomp = .keep then breaks.reverse else []
    ⟨acc.reverse ++ last ++ more, p, rest⟩

/-- Reads a block from after its sign. `parent` is one more than the indentation around it. After
the marks only a comment may stand on the line. -/
def readBlock (literal : Bool) (parent : Nat) (text : List Char) (p : Position) :
    Option (Read (List Char)) := do
  let (header, marks) ← blockHeader? text
  let afterMarks := text.drop marks
  let blanks := afterMarks.takeWhile isBlank
  let afterBlanks := afterMarks.drop blanks.length
  let comment :=
    if afterBlanks.head? = some '#' then afterBlanks.takeWhile (fun c => !isBreak c) else []
  let p := p.advance (marks + blanks.length + comment.length)
  let (rest, p) ←
    match afterBlanks.drop comment.length with
    | [] => some ([], p)
    | c :: rest => if isBreak c then some (rest, p.newline) else none
  let search := header.increment = 0
  let fixed := parent - 1 + header.increment
  let start ← blockBreaks search fixed rest p 0 []
  let indent := if search then max (max start.value.1 parent) 1 else fixed
  blockLines literal header.chomp indent (start.rest.length + 1) start.rest start.position
    [] start.value.2 false []

end FirmwareBundle.Yaml
