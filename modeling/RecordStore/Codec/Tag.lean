import RecordStore.Value.Basic

/-!
# Tags of encoded values

An encoded value starts with one byte that tells its type.
-/

namespace RecordStore

/-- The types of encoded values. -/
inductive Tag where
  | null
  | integer
  | float
  | boolean
  | text
  | bytes
  | decimal
  | date
  | dateTime
  | time
  | list
  | mapping
  | tuple
  | set
  | frozenSet
deriving DecidableEq

namespace Tag

/-- The byte of a tag. -/
def byte : Tag → UInt8
  | null => 0
  | integer => 1
  | float => 2
  | boolean => 3
  | text => 4
  | bytes => 5
  | decimal => 6
  | date => 7
  | dateTime => 8
  | time => 9
  | list => 10
  | mapping => 11
  | tuple => 12
  | set => 13
  | frozenSet => 14

/-- The tag of a byte. -/
def ofByte? (byte : UInt8) : Option Tag :=
  match byte.toNat with
  | 0 => some null
  | 1 => some integer
  | 2 => some float
  | 3 => some boolean
  | 4 => some text
  | 5 => some bytes
  | 6 => some decimal
  | 7 => some date
  | 8 => some dateTime
  | 9 => some time
  | 10 => some list
  | 11 => some mapping
  | 12 => some tuple
  | 13 => some set
  | 14 => some frozenSet
  | _ => none

/-- A tag is read back from its byte. -/
theorem ofByte?_byte (tag : Tag) : ofByte? tag.byte = some tag := by
  cases tag <;> rfl

end Tag

end RecordStore
