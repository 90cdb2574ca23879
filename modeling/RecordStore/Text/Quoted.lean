import RecordStore.Text.Digits
import RecordStore.Text.Property

/-!
# Quoted texts

A text between double quotes, with escapes for the characters that would be misread: the quote and the
backslash, four controls by letters, and by its code point every other character that has no printed
form or that extends the character before it.  The rest of the file trims texts.
-/

namespace RecordStore

/-- How a character is written inside quotes. -/
def escapeChar (c : Char) : List Char :=
  if c = Char.ofNat 0 then ['\\', '0']
  else if c = '\t' then ['\\', 't']
  else if c = '\r' then ['\\', 'r']
  else if c = '\n' then ['\\', 'n']
  else if c = '"' then ['\\', '"']
  else if c = '\\' then ['\\', '\\']
  else if isIndistinct c then
    ['\\', 'u', '\x7b'] ++ Nat.toDigits 16 c.toNat ++ ['\x7d']
  else [c]

/-- A text between quotes. -/
def quoted (text : String) : String :=
  String.ofList ('"' :: text.toList.flatMap escapeChar ++ ['"'])

/-- Characters without the white space at both ends. -/
def trimBlanks (chars : List Char) : List Char :=
  ((chars.dropWhile isWhiteSpace).reverse.dropWhile isWhiteSpace).reverse

end RecordStore
