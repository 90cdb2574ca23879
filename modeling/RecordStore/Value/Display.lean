import RecordStore.Text.Quoted
import RecordStore.Value.Basic

/-!
# Texts of values

How values are shown to people.  Scalars are shown as their own files say, texts and keys between quotes,
byte strings by their length, and containers as their items between brackets of their kind.
-/

namespace RecordStore

namespace Value

mutual

/-- The text of a value. -/
def toText : Value → String
  | null => "null"
  | integer n => intText n.toInt
  | float x => x.toText
  | boolean b => if b then "true" else "false"
  | text s => quoted s
  | bytes b => "<" ++ natText b.length ++ " bytes>"
  | decimal d => d.toText
  | date d => d.toText
  | dateTime t => t.toText
  | time t => t.toText
  | list items => "[" ++ ", ".intercalate (itemTexts items) ++ "]"
  | mapping entries => "\x7b" ++ ", ".intercalate (entryTexts entries) ++ "\x7d"
  | tuple items => "(" ++ ", ".intercalate (itemTexts items) ++ ")"
  | set members => "\x7b" ++ ", ".intercalate (itemTexts members) ++ "\x7d"
  | frozenSet members => "frozen\x7b" ++ ", ".intercalate (itemTexts members) ++ "\x7d"
termination_by structural v => v

/-- The texts of the items of a container. -/
def itemTexts : List Value → List String
  | [] => []
  | x :: xs => toText x :: itemTexts xs

/-- The texts of the entries of a mapping. -/
def entryTexts : List (String × Value) → List String
  | [] => []
  | (k, x) :: xs => (quoted k ++ ": " ++ toText x) :: entryTexts xs

end

end Value

end RecordStore
