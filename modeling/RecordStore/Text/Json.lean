import RecordStore.Text.Digits

/-!
# JSON texts

How texts, and objects whose members are texts, are written in JSON.
-/

namespace RecordStore

/-- How a character is written inside a JSON string. -/
def jsonChar (c : Char) : List Char :=
  if c = '"' then ['\\', '"']
  else if c = '\\' then ['\\', '\\']
  else if c = '\n' then ['\\', 'n']
  else if c = '\r' then ['\\', 'r']
  else if c = '\t' then ['\\', 't']
  else if c.toNat = 8 then ['\\', 'b']
  else if c.toNat = 12 then ['\\', 'f']
  else if c.toNat < 32 then ['\\', 'u'] ++ padStart '0' 4 (Nat.toDigits 16 c.toNat)
  else [c]

/-- A text as a JSON string. -/
def jsonString (text : String) : String :=
  String.ofList ('"' :: text.toList.flatMap jsonChar ++ ['"'])

/-- An object of texts, one member to a line. -/
def jsonObject (members : List (String × String)) : String :=
  let lines := members.map fun entry => "  " ++ jsonString entry.1 ++ ": " ++ jsonString entry.2
  "\x7b\n" ++ ",\n".intercalate lines ++ "\n\x7d"

end RecordStore
