import RecordStore.Storage.Contents

/-!
# Batches of writes

A batch collects writes of rows and advances of sequences that are applied together.
-/

namespace RecordStore

/-- A write of one row. -/
inductive RowWrite where
  | put (table : String) (id : UInt64) (row : StoredRow)
  | delete (table : String) (id : UInt64)

/-- The contents of a storage after a write. -/
def RowWrite.apply (contents : Contents) : RowWrite → Contents
  | put table id row => contents.putRow table id row
  | delete table id => contents.deleteRow table id

/-- Writes that are applied together. -/
structure Batch where
  /-- Writes of rows, in order. -/
  writes : List RowWrite := []
  /-- The numbers that sequences are brought to. -/
  sequences : SortedMap String Nat := ∅

namespace Batch

/-- Adds a write of a row. -/
def put (table : String) (id : UInt64) (row : StoredRow) (batch : Batch) : Batch :=
  { batch with writes := batch.writes ++ [.put table id row] }

/-- Adds the removal of a row. -/
def delete (table : String) (id : UInt64) (batch : Batch) : Batch :=
  { batch with writes := batch.writes ++ [.delete table id] }

/-- Adds that a sequence is brought to at least a number. -/
def advance (sequence : String) (value : Nat) (batch : Batch) : Batch :=
  let known := (batch.sequences.find? sequence).getD 0
  { batch with sequences := batch.sequences.insert sequence (max known value) }

/-- Whether there is nothing to apply. -/
def isEmpty (batch : Batch) : Bool :=
  batch.writes.isEmpty && batch.sequences.isEmpty

/-- The contents of a storage after all writes of a batch. -/
def apply (batch : Batch) (contents : Contents) : Contents :=
  let written := batch.writes.foldl RowWrite.apply contents
  batch.sequences.toList.foldl (fun contents entry => contents.advanceSequence entry.1 entry.2) written

end Batch

end RecordStore
