import RecordStore.Schema.Table
import RecordStore.SortedMap
import RecordStore.Storage.RowKey
import RecordStore.Storage.Stamp
import RecordStore.Storage.StoredRow

/-!
# Contents of a storage

Four things are kept: rows under their keys, sequences that number rows, the catalog of tables, and at
most one stamp.  A table owns the rows whose keys start with its table key.
-/

namespace RecordStore

/-- What a storage holds. -/
structure Contents where
  rows : SortedMap Bytes StoredRow := ∅
  /-- The last number that each sequence has given. -/
  sequences : SortedMap String Nat := ∅
  catalog : SortedMap String TableSchema := ∅
  stamp : Option Stamp := none

namespace Contents

/-! ## Rows -/

/-- Whether a key belongs to a table. -/
def ownsKey (table : String) (key : Bytes) : Bool :=
  (tableKey table).isPrefixOf key

/-- The row of a number in a table. -/
def row? (contents : Contents) (table : String) (id : UInt64) : Option StoredRow :=
  contents.rows.find? (rowKey table id)

/-- Writes a row, replacing the row of its number. -/
def putRow (table : String) (id : UInt64) (row : StoredRow) (contents : Contents) : Contents :=
  { contents with rows := contents.rows.insert (rowKey table id) row }

/-- Removes a row. -/
def deleteRow (table : String) (id : UInt64) (contents : Contents) : Contents :=
  { contents with rows := contents.rows.erase (rowKey table id) }

/-- The rows of a table in the order of their keys, each with its number; a key that has no number where
it should stand is a fault. -/
def scan (contents : Contents) (table : String) : List (Except DataFault (UInt64 × StoredRow)) :=
  (contents.rows.toList.filter fun entry => ownsKey table entry.1).map fun entry =>
    match rowIdOfKey? entry.1 (tableKey table).length with
    | some id => .ok (id, entry.2)
    | none => .error .malformedRowKey

/-! ## Sequences -/

/-- The last number a sequence has given, zero before the first. -/
def sequenceValue (contents : Contents) (sequence : String) : Nat :=
  (contents.sequences.find? sequence).getD 0

/-- Brings a sequence to a number unless it is there already. -/
def advanceSequence (sequence : String) (value : Nat) (contents : Contents) : Contents :=
  if contents.sequenceValue sequence < value then
    { contents with sequences := contents.sequences.insert sequence value }
  else contents

/-! ## Tables -/

/-- Enters a table in the catalog, replacing the table of its name. -/
def defineTable (contents : Contents) (schema : TableSchema) : Contents :=
  { contents with catalog := contents.catalog.insert schema.table schema }

/-- Removes a table with its sequence and all its rows. -/
def removeTable (contents : Contents) (table : String) : Contents :=
  { contents with
    rows := contents.rows.filter fun key _ => !ownsKey table key
    sequences :=
      match contents.catalog.find? table with
      | some schema => contents.sequences.erase schema.sequence
      | none => contents.sequences
    catalog := contents.catalog.erase table }

end Contents

end RecordStore
