import Multipart.Text.Unprintable
import Multipart.Text.Extender

/-!
# Quoted text

The form in which a summary shows a text: between double quotes, with
the quote and the backslash escaped, with short escapes for the four
most common controls, and with the code point in braces for every
character that shows nothing by itself or would attach to its
neighbour. Everything else stands as it is, the single quote included.
-/

namespace Multipart

namespace Text

def hexDigits (n : Nat) : List Char := Nat.toDigits 16 n

/-- How one character is shown inside quotes. -/
def quoteChar (c : Char) : List Char :=
  if c = '\x00' then ['\\', '0']
  else if c = '\t' then ['\\', 't']
  else if c = '\r' then ['\\', 'r']
  else if c = '\n' then ['\\', 'n']
  else if c = '"' then ['\\', '"']
  else if c = '\\' then ['\\', '\\']
  else if isExtender c || isUnprintable c then
    ['\\', 'u', '\x7b'] ++ hexDigits c.toNat ++ ['\x7d']
  else [c]

/-- A text between double quotes. -/
def quoted (text : String) : String :=
  String.ofList ('"' :: text.toList.flatMap quoteChar ++ ['"'])

end Text

end Multipart
