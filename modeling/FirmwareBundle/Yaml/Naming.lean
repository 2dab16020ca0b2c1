import FirmwareBundle.Bytes
import FirmwareBundle.Text.Hex
import FirmwareBundle.Yaml.Token
import FirmwareBundle.Yaml.Character
/-!
# Anchors, aliases, tags and directives

The marks that name a node, give it a type, or set up the shorthands for types. Each reader takes
the text after its mark and gives the token with the number of characters it took.

## Main definitions

* `FirmwareBundle.Yaml.readAnchorName` — the name of an anchor or an alias.
* `FirmwareBundle.Yaml.readTagAddress` — the address of a type, with its percent escapes.
* `FirmwareBundle.Yaml.readTag` — a tag in one of its three forms.
* `FirmwareBundle.Yaml.readDirective` — a line that starts with a percent sign.
-/

namespace FirmwareBundle.Yaml

/-! ## Anchors and aliases -/

/-- Whether `c` may follow the name of an anchor, white space apart. -/
def isAnchorEnd (c : Char) : Bool :=
  c == '?' || c == ':' || c == ',' || c == ']' || c == '}' || c == '%' || c == '@' || c == '\x60'

/-- The name that `text` starts with, of at least one character, if white space or a mark follows;
and its length. -/
def readAnchorName (text : List Char) : Option (String × Nat) :=
  let name := text.takeWhile isWordChar
  let rest := text.drop name.length
  if name.isEmpty then none
  else if startsBlank rest ∨ rest.head?.any isAnchorEnd then
    some (String.ofList name, name.length)
  else none

/-! ## Tags -/

/-- Whether `c` may stand in the address of a tag; the last three only in a `verbatim` one, where no
flow mark can be meant. -/
def isAddressChar (verbatim : Bool) (c : Char) : Bool :=
  isWordChar c || c == ';' || c == '/' || c == '?' || c == ':' || c == '@' || c == '&' ||
    c == '=' || c == '+' || c == '$' || c == '.' || c == '%' || c == '!' || c == '~' ||
    c == '*' || c == '\'' || c == '(' || c == ')' ||
    (verbatim && (c == ',' || c == '[' || c == ']'))

/-- The byte that a percent sign and two hexadecimal digits stand for. -/
def percentByte? : List Char → Option Nat
  | '%' :: a :: b :: _ => do
    pure (16 * (← Hex.digit? a) + (← Hex.digit? b))
  | _ => none

/-- The number of bytes that follow a leading `byte` of an encoded character. -/
def followers? (byte : Nat) : Option Nat :=
  if byte < 0x80 then some 0
  else if 0xc0 ≤ byte ∧ byte < 0xe0 then some 1
  else if 0xe0 ≤ byte ∧ byte < 0xf0 then some 2
  else if 0xf0 ≤ byte ∧ byte < 0xf8 then some 3
  else none

/-- Reads the bytes of an address. The first `skip` characters are digits of an escape already
read, `due` is the number of escapes that must follow to complete a character, and `taken` the
number of characters read. -/
def addressFrom (verbatim : Bool) :
    List Char → (skip due taken : Nat) → (acc : ByteArray) → Option (ByteArray × Nat)
  | [], _, due, taken, acc => if due = 0 then some (acc, taken) else none
  | _ :: rest, skip + 1, due, taken, acc => addressFrom verbatim rest skip due (taken + 1) acc
  | c :: rest, 0, due + 1, taken, acc =>
    match percentByte? (c :: rest) with
    | none => none
    | some byte =>
      if 0x80 ≤ byte ∧ byte < 0xc0 then
        addressFrom verbatim rest 2 due (taken + 1) (acc.push byte.toUInt8)
      else none
  | c :: rest, 0, 0, taken, acc =>
    if c = '%' then
      match percentByte? (c :: rest) with
      | none => none
      | some byte =>
        match followers? byte with
        | none => none
        | some due => addressFrom verbatim rest 2 due (taken + 1) (acc.push byte.toUInt8)
    else if isAddressChar verbatim c then
      addressFrom verbatim rest 0 0 (taken + 1) (acc ++ c.toString.toUTF8)
    else some (acc, taken)

/-- The bytes of `address` in front of its first zero. An escape can stand for a zero, and nothing
behind it belongs to the address. -/
def addressUpToZero (address : ByteArray) : ByteArray :=
  match Bytes.firstZero address with
  | some length => address.extract 0 length
  | none => address

/-- The bytes of an address up to the first zero, and the number of characters read, if `known` is
the beginning of the address and `text` goes on with the rest. -/
def readTagAddress (verbatim : Bool) (known : String) (text : List Char) :
    Option (ByteArray × Nat) :=
  (addressFrom verbatim text 0 0 0 known.toUTF8).map fun read => (addressUpToZero read.1, read.2)

/-- A handle: an exclamation mark, a name, and perhaps a second mark. -/
def tagHandle? : List Char → Option String
  | '!' :: rest =>
    let name := rest.takeWhile isWordChar
    let close := (rest.drop name.length).head? == some '!'
    some (String.ofList ('!' :: name ++ (if close then ['!'] else [])))
  | _ => none

/-- Whether `handle` has both its marks. -/
def isNamedHandle (handle : String) : Bool :=
  1 < handle.length && handle.toList.getLast? == some '!'

/-- Reads a tag from its exclamation mark on: an address in angle brackets, a handle and an address,
or an address behind one mark. The lone mark is a tag without a handle. -/
def readTagBody (text : List Char) : Option (Token × Nat) :=
  match text with
  | '!' :: '<' :: rest => do
    let (address, n) ← readTagAddress true "" rest
    guard (0 < n ∧ (rest.drop n).head? = some '>')
    pure (.tag "" address, n + 3)
  | _ => do
    let handle ← tagHandle? text
    let rest := text.drop handle.length
    if isNamedHandle handle then
      let (suffix, n) ← readTagAddress false "" rest
      guard (0 < n)
      pure (.tag handle suffix, handle.length + n)
    else
      let (suffix, n) ← readTagAddress false (String.ofList handle.toList.tail) rest
      if suffix.isEmpty then pure (.tag "" "!".toUTF8, handle.length + n)
      else pure (.tag "!" suffix, handle.length + n)

/-- Reads a tag at the start of `text`. White space must follow it, or a comma if `inFlow` holds. -/
def readTag (inFlow : Bool) (text : List Char) : Option (Token × Nat) := do
  let (token, n) ← readTagBody text
  let rest := text.drop n
  guard (startsBlank rest ∨ (inFlow ∧ rest.head? = some ','))
  pure (token, n)

/-! ## Directives -/

/-- The number of one to nine digits that `text` starts with, and how many they are. -/
def versionNumber? (text : List Char) : Option (Nat × Nat) :=
  let digits := text.takeWhile Char.isDigit
  if digits.isEmpty ∨ 9 < digits.length then none
  else some (digits.foldl (fun n c => 10 * n + (c.toNat - '0'.toNat)) 0, digits.length)

/-- The number of blanks that `text` starts with. -/
def blankCount (text : List Char) : Nat :=
  (text.takeWhile isBlank).length

/-- Reads what follows the name of the version directive in `text`: two numbers with a point between
them. -/
def readVersion (text : List Char) : Option (Token × Nat) := do
  let blanks := blankCount text
  let afterBlanks := text.drop blanks
  let (major, n) ← versionNumber? afterBlanks
  let afterMajor := afterBlanks.drop n
  guard (afterMajor.head? = some '.')
  let (minor, m) ← versionNumber? afterMajor.tail
  pure (.versionDirective major minor, blanks + n + 1 + m)

/-- Reads what follows the name of the tag directive in `text`: a handle and the address it stands
for. -/
def readTagShorthand (text : List Char) : Option (Token × Nat) := do
  let blanks := blankCount text
  let afterBlanks := text.drop blanks
  let handle ← tagHandle? afterBlanks
  guard (isNamedHandle handle ∨ handle = "!")
  let afterHandle := afterBlanks.drop handle.length
  let more := blankCount afterHandle
  guard (0 < more)
  let afterMore := afterHandle.drop more
  let (address, n) ← readTagAddress true "" afterMore
  guard (0 < n ∧ startsBlank (afterMore.drop n))
  pure (.tagDirective handle address, blanks + handle.length + more + n)

/-- Reads a directive from after its percent sign to the end of its line, which only a comment may
fill. The number is that of the characters read. -/
def readDirective (text : List Char) : Option (Token × Nat) := do
  let name := text.takeWhile isWordChar
  let afterName := text.drop name.length
  guard (startsBlank afterName)
  let (token, n) ←
    if name = "YAML".toList then readVersion afterName
    else if name = "TAG".toList then readTagShorthand afterName
    else none
  let afterValue := afterName.drop n
  let blanks := blankCount afterValue
  let afterBlanks := afterValue.drop blanks
  let comment :=
    if afterBlanks.head? = some '#' then afterBlanks.takeWhile (fun c => !isBreak c) else []
  guard ((afterBlanks.drop comment.length).head?.all isBreak)
  pure (token, name.length + n + blanks + comment.length)

end FirmwareBundle.Yaml
