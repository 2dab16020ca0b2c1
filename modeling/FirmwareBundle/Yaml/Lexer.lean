import FirmwareBundle.Yaml.Naming
import FirmwareBundle.Yaml.ScalarText
/-!
# From text to tokens

A colon may turn what stands before it on the line into a key, so a token that could begin a key
is remembered, and the key mark is put in front of it once the colon is seen. Outside flow
collections the columns of keys and of list items open and close block collections.

## Main definitions

* `FirmwareBundle.Yaml.PendingKey` — the place where a key might begin.
* `FirmwareBundle.Yaml.Lexer` — what is known between two tokens.
* `FirmwareBundle.Yaml.Lexer.fetch` — one token read.
* `FirmwareBundle.Yaml.tokens?` — the tokens of a stream.

## Implementation notes

A key must end on the line it began on, within 1024 characters. That is checked only when its
colon comes or when it is given up, which refuses the same streams as checking it all the time.
-/

namespace FirmwareBundle.Yaml

/-- A token that may turn out to begin a key: how many tokens came before it, where it stands, and
whether nothing but a key may stand there. -/
structure PendingKey where
  before : Nat
  position : Position
  required : Bool

/-- The state between two tokens: the text left and its place, whether a key may begin here, the
place where one may have begun, the same for each flow collection around, the open indentations,
and the tokens so far in reverse with their number. -/
structure Lexer where
  rest : List Char
  position : Position
  keyAllowed : Bool
  pending : Option PendingKey
  enclosing : List (Option PendingKey)
  indents : List Nat
  tokens : List Token
  count : Nat

namespace Lexer

/-- The state before the first token of `text`, which starts at `p`. -/
def start (text : List Char) (p : Position) : Lexer :=
  ⟨text, p, true, none, [], [], [], 0⟩

/-- Whether a flow collection is open. -/
def inFlow (s : Lexer) : Bool :=
  !s.enclosing.isEmpty

/-- One more than the innermost indentation, zero if there is none. -/
def parent (s : Lexer) : Nat :=
  match s.indents with
  | [] => 0
  | n :: _ => n + 1

/-- The state after `n` characters of the line. -/
def skip (s : Lexer) (n : Nat) : Lexer :=
  { s with rest := s.rest.drop n, position := s.position.advance n }

/-- The token `t` added at the end. -/
def emit (s : Lexer) (t : Token) : Lexer :=
  { s with tokens := t :: s.tokens, count := s.count + 1 }

/-- The token `t` put in after the first `before` tokens. -/
def insert (s : Lexer) (before : Nat) (t : Token) : Lexer :=
  { s with tokens := s.tokens.insertIdx (s.count - before) t, count := s.count + 1 }

/-! ## Keys that may begin -/

/-- Gives up the place where a key may have begun; refused where only a key may stand. -/
def dropKey (s : Lexer) : Option Lexer :=
  match s.pending with
  | some k => if k.required then none else some { s with pending := none }
  | none => some s

/-- Remembers that a key may begin at the next token. -/
def saveKey (s : Lexer) : Option Lexer :=
  if s.keyAllowed then do
    let required := !s.inFlow && s.indents.head? == some s.position.column
    let s ← s.dropKey
    pure { s with pending := some ⟨s.count, s.position, required⟩ }
  else some s

/-- Whether a key that began at `k` may end at `p`. -/
def inReach (k : PendingKey) (p : Position) : Bool :=
  k.position.line == p.line && p.index ≤ k.position.index + 1024

/-! ## Indentation -/

/-- Opens a block collection at a `column` right of the innermost one; its token `t` goes in after
the first `before` tokens. Inside flow collections there are none. -/
def openBlock (s : Lexer) (column before : Nat) (t : Token) : Lexer :=
  if s.inFlow then s
  else if s.parent ≤ column then { s.insert before t with indents := column :: s.indents }
  else s

/-- Closes the innermost block collections up to the first whose column `keep` holds of, outside
flow collections. -/
def closeBlocks (s : Lexer) (keep : Nat → Bool) : Lexer :=
  if s.inFlow then s
  else
    let closed := s.indents.takeWhile (fun n => !keep n)
    { s with
      indents := s.indents.drop closed.length
      tokens := closed.foldl (fun ts _ => .blockEnd :: ts) s.tokens
      count := s.count + closed.length }

/-! ## White space and comments -/

/-- Passes over blanks, comments and breaks up to the next token. Outside flow collections a tab
separates only where no key may begin, and a break lets a key begin. Every break takes a
character, so `fuel` need not exceed the length of the text. -/
def skipIgnored : (fuel : Nat) → Lexer → Lexer
  | 0, s => s
  | fuel + 1, s =>
    let tabs := s.inFlow || !s.keyAllowed
    let s := s.skip (s.rest.takeWhile (fun c => c == ' ' || (tabs && c == '\t'))).length
    let s :=
      if s.rest.head? = some '#' then s.skip (s.rest.takeWhile (fun c => !isBreak c)).length
      else s
    match s.rest with
    | c :: rest =>
      if isBreak c then
        skipIgnored fuel
          { s with rest, position := s.position.newline, keyAllowed := s.keyAllowed || !s.inFlow }
      else s
    | [] => s

/-! ## Single tokens -/

/-- Reads the mark `t` of a document at the left margin, which ends every block collection. -/
def fetchDocumentMark (s : Lexer) (t : Token) : Option Lexer := do
  let s ← (s.closeBlocks fun _ => false).dropKey
  pure (({ s with keyAllowed := false }.skip 3).emit t)

/-- The state after a break, if one is next. -/
def skipBreak (s : Lexer) : Lexer :=
  match s.rest with
  | c :: rest => if isBreak c then { s with rest, position := s.position.newline } else s
  | [] => s

/-- A directive, which ends every block collection too and takes the whole line. -/
def fetchDirective (s : Lexer) : Option Lexer := do
  let s ← (s.closeBlocks fun _ => false).dropKey
  let (t, n) ← readDirective s.rest.tail
  pure (({ s with keyAllowed := false }.skip (n + 1)).skipBreak.emit t)

/-- Reads the mark `t` that opens a flow collection. It may begin a key. -/
def fetchFlowStart (s : Lexer) (t : Token) : Option Lexer := do
  let s ← s.saveKey
  let s := { s with enclosing := s.pending :: s.enclosing, pending := none, keyAllowed := true }
  pure ((s.skip 1).emit t)

/-- Reads the mark `t` that closes a flow collection. What may be a key of the collection around it
is known again. -/
def fetchFlowEnd (s : Lexer) (t : Token) : Option Lexer := do
  let s ← s.dropKey
  let s :=
    match s.enclosing with
    | [] => s
    | k :: outer => { s with pending := k, enclosing := outer }
  pure (({ s with keyAllowed := false }.skip 1).emit t)

/-- Reads the comma between the entries of a flow collection. -/
def fetchFlowEntry (s : Lexer) : Option Lexer := do
  let s ← s.dropKey
  pure (({ s with keyAllowed := true }.skip 1).emit .flowEntry)

/-- Reads the hyphen before an item of a block sequence. -/
def fetchBlockEntry (s : Lexer) : Option Lexer := do
  guard (s.inFlow ∨ s.keyAllowed)
  let s ← (s.openBlock s.position.column s.count .blockSequenceStart).dropKey
  pure (({ s with keyAllowed := true }.skip 1).emit .blockEntry)

/-- Reads the question mark before a key. -/
def fetchKey (s : Lexer) : Option Lexer := do
  guard (s.inFlow ∨ s.keyAllowed)
  let s ← (s.openBlock s.position.column s.count .blockMappingStart).dropKey
  pure (({ s with keyAllowed := !s.inFlow }.skip 1).emit .key)

/-- Reads the colon before a value. What stands before it becomes a key if it may be one. -/
def fetchValue (s : Lexer) : Option Lexer :=
  match s.pending with
  | some k =>
    if inReach k s.position then
      let s := (s.insert k.before .key).openBlock k.position.column k.before .blockMappingStart
      some (({ s with pending := none, keyAllowed := false }.skip 1).emit .value)
    else if k.required then none
    else fresh { s with pending := none }
  | none => fresh s
where
  /-- A colon with no key before it on its line. -/
  fresh (s : Lexer) : Option Lexer := do
    guard (s.inFlow ∨ s.keyAllowed)
    let s := s.openBlock s.position.column s.count .blockMappingStart
    pure (({ s with keyAllowed := !s.inFlow }.skip 1).emit .value)

/-- Reads a token `t` of `n` characters that names or types the node to come. -/
def fetchProperty (s : Lexer) (t : Token) (n : Nat) : Option Lexer := do
  let s ← s.saveKey
  pure (({ s with keyAllowed := false }.skip n).emit t)

/-- Reads a quoted scalar, between `single` quotes or double ones. -/
def fetchQuoted (s : Lexer) (single : Bool) : Option Lexer := do
  let s ← s.saveKey
  let r ← readQuoted single s.rest.tail (s.position.advance 1)
  pure ({ s with keyAllowed := false, rest := r.rest, position := r.position }.emit
    (.scalar (String.ofList r.value) false))

/-- Reads a plain scalar. A break after it lets a key begin. -/
def fetchPlain (s : Lexer) : Option Lexer := do
  let s ← s.saveKey
  let r ← readPlain s.inFlow s.parent s.rest s.position
  pure ({ s with keyAllowed := r.value.2, rest := r.rest, position := r.position }.emit
    (.scalar (String.ofList r.value.1) true))

/-- Reads an indented block of text, which is `literal` or folded. -/
def fetchBlock (s : Lexer) (literal : Bool) : Option Lexer := do
  let s ← s.dropKey
  let r ← readBlock literal s.parent s.rest.tail (s.position.advance 1)
  pure ({ s with keyAllowed := true, rest := r.rest, position := r.position }.emit
    (.scalar (String.ofList r.value) false))

/-- Whether `c` is one of the characters that no plain scalar starts with, white space apart. -/
def isIndicator (c : Char) : Bool :=
  isFlowMark c || c == '-' || c == '?' || c == ':' || c == '#' || c == '&' || c == '*' ||
    c == '!' || c == '|' || c == '>' || c == '\'' || c == '"' || c == '%' || c == '@' || c == '\x60'

/-- Reads the token that starts with the character `c` before the text `rest`. -/
def fetch (s : Lexer) (c : Char) (rest : List Char) : Option Lexer :=
  if s.position.column = 0 ∧ c = '%' then s.fetchDirective
  else if s.position.column = 0 ∧ startsDocumentMark '-' (c :: rest) then
    s.fetchDocumentMark .documentStart
  else if s.position.column = 0 ∧ startsDocumentMark '.' (c :: rest) then
    s.fetchDocumentMark .documentEnd
  else if c = '[' then s.fetchFlowStart .flowSequenceStart
  else if c = '{' then s.fetchFlowStart .flowMappingStart
  else if c = ']' then s.fetchFlowEnd .flowSequenceEnd
  else if c = '}' then s.fetchFlowEnd .flowMappingEnd
  else if c = ',' then s.fetchFlowEntry
  else if c = '-' ∧ startsBlank rest then s.fetchBlockEntry
  else if c = '?' ∧ (s.inFlow ∨ startsBlank rest) then s.fetchKey
  else if c = ':' ∧ (s.inFlow ∨ startsBlank rest) then s.fetchValue
  else if c = '*' then do
    let (name, n) ← readAnchorName rest
    s.fetchProperty (.alias name) (n + 1)
  else if c = '&' then do
    let (name, n) ← readAnchorName rest
    s.fetchProperty (.anchor name) (n + 1)
  else if c = '!' then do
    let (t, n) ← readTag s.inFlow (c :: rest)
    s.fetchProperty t n
  else if c = '|' ∧ ¬ s.inFlow then s.fetchBlock true
  else if c = '>' ∧ ¬ s.inFlow then s.fetchBlock false
  else if c = '\'' then s.fetchQuoted true
  else if c = '"' then s.fetchQuoted false
  else if ¬ (isBlank c ∨ isIndicator c) ∨ (c = '-' ∧ ¬ rest.head?.any isBlank) ∨
      (¬ s.inFlow ∧ (c = '?' ∨ c = ':') ∧ ¬ startsBlank rest) then
    s.fetchPlain
  else none

/-- Reads on to the end of the text. Every token takes a character, so `fuel` need not exceed the
length of the text by more than one. -/
def run : (fuel : Nat) → Lexer → Option (List Token)
  | 0, _ => none
  | fuel + 1, s =>
    let s := s.skipIgnored (fuel + 1)
    let s := s.closeBlocks (· ≤ s.position.column)
    match s.rest with
    | [] => do
      let s ← (s.closeBlocks fun _ => false).dropKey
      pure s.tokens.reverse
    | c :: rest => do
      let s ← s.fetch c rest
      run fuel s

end Lexer

/-- The tokens of the stream `text`. A byte order mark at its start takes up one column. -/
def tokens? (text : List Char) : Option (List Token) :=
  if text.all isAllowed then
    match unifyBreaks text with
    | c :: rest =>
      if c = byteOrderMark then
        (Lexer.start rest (Position.start.advance 1)).run (rest.length + 1)
      else (Lexer.start (c :: rest) .start).run (rest.length + 2)
    | [] => some []
  else none

end FirmwareBundle.Yaml
