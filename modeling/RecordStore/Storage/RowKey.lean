import RecordStore.Bytes

/-!
# Keys of rows

The rows of all tables stand in one ordered map.  The key of a row is the name of its table, a zero byte
and the number of the row, high byte first, so that the rows of a table stand together in the order of
their numbers.
-/

namespace RecordStore

/-- The number of bytes of the number of a row. -/
def rowIdSize : Nat := 8

/-- What the keys of all rows of a table start with. -/
def tableKey (table : String) : Bytes :=
  textBytes table ++ [0]

/-- The key of a row. -/
def rowKey (table : String) (id : UInt64) : Bytes :=
  tableKey table ++ bigEndian rowIdSize id.toNat

/-- The number in a key whose table part has a given length; nothing when the key has another length than
such keys have. -/
def rowIdOfKey? (key : Bytes) (tableLength : Nat) : Option UInt64 :=
  if key.length = tableLength + rowIdSize then
    some (UInt64.ofNat (ofBigEndian (key.drop tableLength)))
  else none

end RecordStore
