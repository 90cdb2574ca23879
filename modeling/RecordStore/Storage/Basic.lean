import RecordStore.Storage.Address
import RecordStore.Storage.Batch

/-!
# Storages

A `Storage` is an address with settings and what is kept there.  A storage in memory, or one that vanishes,
exists from the start; any other has to be created, and is gone after it is dropped.
-/

namespace RecordStore

/-- A storage at an address. -/
structure Storage where
  address : Address
  settings : Settings
  /-- What the storage holds, once there is something. -/
  contents : Option Contents := none

namespace Storage

/-- The storage at an address, with the settings that the address implies. -/
def atAddress (address : Address) : Storage where
  address
  settings := .ofAddress address

/-- Whether the storage is there without being created, and is only cleared when it is dropped. -/
def isAlwaysThere (storage : Storage) : Bool :=
  storage.address.isMemory || storage.settings.temporary

/-- Whether the storage exists. -/
def exists? (storage : Storage) : Bool :=
  storage.isAlwaysThere || storage.contents.isSome

/-- Creates the storage; one that exists keeps what it holds. -/
def create (storage : Storage) : Storage :=
  { storage with contents := some (storage.contents.getD {}) }

/-- Drops the storage with all it holds. -/
def drop (storage : Storage) : Storage :=
  { storage with contents := none }

/-- The storage as it is found when it is opened anew. -/
def reopen (storage : Storage) : Storage :=
  if storage.settings.temporary then { storage with contents := none } else storage

/-- What the storage holds; a storage that does not exist is unavailable. -/
def read (storage : Storage) : Except Error Contents :=
  if storage.exists? then .ok (storage.contents.getD {})
  else .error (.storageUnavailable storage.address.toText)

/-- Changes what the storage holds. -/
def change (storage : Storage) (f : Contents → Contents) : Except Error Storage := do
  let contents ← storage.read
  return { storage with contents := some (f contents) }

/-! ## Tables -/

/-- Enters tables in the catalog. -/
def defineTables (storage : Storage) (tables : List TableSchema) : Except Error Storage :=
  storage.change fun contents => tables.foldl Contents.defineTable contents

/-- Removes tables with their sequences and rows. -/
def removeTables (storage : Storage) (tables : List String) : Except Error Storage :=
  storage.change fun contents => tables.foldl Contents.removeTable contents

/-- The table of a name. -/
def table? (storage : Storage) (table : String) : Except Error (Option TableSchema) := do
  return (← storage.read).catalog.find? table

/-- All tables in the order of their names. -/
def tables (storage : Storage) : Except Error (List TableSchema) := do
  return (← storage.read).catalog.toList.map (·.2)

/-! ## Rows and sequences -/

/-- The last number a sequence has given. -/
def sequenceValue (storage : Storage) (sequence : String) : Except Error Nat := do
  return (← storage.read).sequenceValue sequence

/-- The row of a number in a table. -/
def row? (storage : Storage) (table : String) (id : UInt64) : Except Error (Option StoredRow) := do
  return (← storage.read).row? table id

/-- The rows of a table in the order of their numbers. -/
def scan (storage : Storage) (table : String) :
    Except Error (List (Except DataFault (UInt64 × StoredRow))) := do
  return (← storage.read).scan table

/-- Applies a batch.  An empty batch needs no storage. -/
def apply (storage : Storage) (batch : Batch) : Except Error Storage :=
  if batch.isEmpty then .ok storage else storage.change batch.apply

/-! ## Stamp -/

/-- Stamps the storage, once. -/
def writeStamp (storage : Storage) (stamp : Stamp) : Except Error Storage := do
  let contents ← storage.read
  if contents.stamp.isSome then throw .stampExists
  return { storage with contents := some { contents with stamp := some stamp } }

/-- The stamp. -/
def readStamp (storage : Storage) : Except Error (Option Stamp) := do
  return (← storage.read).stamp

/-- Makes sure that all that was written is kept, which needs the storage to be there. -/
def flush (storage : Storage) : Except Error Unit := do
  let _ ← storage.read
  return ()

end Storage

end RecordStore
