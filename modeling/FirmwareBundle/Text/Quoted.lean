import FirmwareBundle.Text.Hex
import FirmwareBundle.Text.Printable
/-!
# Quoted text in messages

A message shows a text between double quotes, on one line, with what would not be seen spelled out.

## Main definitions

* `FirmwareBundle.quoted` — the text between quotes.
-/

namespace FirmwareBundle

/-- The character `c` inside quotes: itself, a backslash and a letter, or its number in braces. -/
def quotedChar (c : Char) : List Char :=
  if c = '\x00' then ['\\', '0']
  else if c = '\t' then ['\\', 't']
  else if c = '\r' then ['\\', 'r']
  else if c = '\n' then ['\\', 'n']
  else if c = '\\' then ['\\', '\\']
  else if c = '"' then ['\\', '"']
  else if isInvisible c then ['\\', 'u', '{'] ++ (Hex.ofNat c.toNat).toList ++ ['}']
  else [c]

/-- The text `s` between double quotes, each character as `quotedChar` writes it. -/
def quoted (s : String) : String :=
  String.ofList ('"' :: s.toList.flatMap quotedChar ++ ['"'])

end FirmwareBundle
