import RecordStore.Record
import RecordStore.Registry
import RecordStore.Storage.Basic

/-!
# Scopes

A scope is a stretch of work on a storage.  It owns the records that were created or loaded in it and hands
them out by their handles; the same row is always the same record.  What is written is staged in the scope
until the scope is committed.

Actions of a scope read the registry and the storage (`Environment`) but do not change them.  An action
that fails leaves the scope as far as the action had come.
-/

namespace RecordStore

/-- The place of a record among the records of a scope. -/
abbrev Handle : Type := Nat

/-- Where a record of a scope stands. -/
inductive Lifecycle where
  /-- Added, and not yet flushed. -/
  | pending
  /-- Flushed or loaded. -/
  | persistent
  /-- To be deleted by the next flush. -/
  | deleted
  /-- Deleted and flushed, or discarded before it was ever flushed. -/
  | removed
deriving DecidableEq

namespace Lifecycle

/-- Whether the record is there, now or after the next flush. -/
def isLive : Lifecycle → Bool
  | pending | persistent => true
  | deleted | removed => false

/-- Where a record stands after it is deleted. -/
def afterDelete : Lifecycle → Lifecycle
  | pending | removed => removed
  | persistent | deleted => deleted

/-- Where a record stands after a flush. -/
def afterFlush : Lifecycle → Lifecycle
  | pending | persistent => persistent
  | deleted | removed => removed

end Lifecycle

/-- A record of a scope. -/
structure Entry where
  record : Record
  state : Lifecycle

/-- What the actions of a scope read. -/
structure Environment where
  registry : Registry
  storage : Storage

/-- The state of a scope. -/
structure Scope where
  /-- The records; the handle of a record is its place. -/
  entries : List Entry := []
  /-- The handle of each stored row, by model and key. -/
  identity : SortedMap (String × Int64) Handle := ∅
  /-- References to records that have no key yet, by handle and column. -/
  links : SortedMap (Handle × String) Handle := ∅
  /-- Rows written in this scope, by table and number; a deleted row is nothing. -/
  staged : SortedMap (String × UInt64) (Option StoredRow) := ∅
  /-- The last numbers given by sequences in this scope. -/
  sequences : SortedMap String Nat := ∅
  /-- Tables known to be in the catalog. -/
  knownTables : NameSet := ∅
  /-- Whether the storage was asked for anything. -/
  consulted : Bool := false
  /-- Where fresh codes and the time come from. -/
  supply : Supply

/-- A fresh record of a model. -/
def Registry.instantiate (registry : Registry) (name : String) : Except Error Record := do
  let model ← registry.model name
  return .new model (registry.collectionNames name)

/-! ## Actions -/

/-- An action of a scope. -/
abbrev ScopeM (α : Type) : Type := EStateM Error Scope α

namespace ScopeM

/-- Takes over a result that does not depend on the state of the scope. -/
def lift {α : Type} : Except Error α → ScopeM α
  | .ok a => pure a
  | .error error => throw error

/-- Takes over an answer of the storage. -/
def consult {α : Type} (answer : Except Error α) : ScopeM α := do
  modify fun scope => { scope with consulted := true }
  lift answer

end ScopeM

namespace Scope

/-! ## Records -/

/-- The entry of a handle. -/
def entry (handle : Handle) : ScopeM Entry := do
  match (← get).entries[handle]? with
  | some entry => return entry
  | none => throw (.invalidValue (.unknownHandle handle))

/-- The record of a handle. -/
def record (handle : Handle) : ScopeM Record := do
  return (← entry handle).record

/-- Changes the record of a handle, if there is one. -/
def modifyRecord (scope : Scope) (handle : Handle) (f : Record → Record) : Scope :=
  { scope with entries := scope.entries.modify handle fun entry =>
      { entry with record := f entry.record } }

/-- Changes the record of a handle; a change that fails leaves it as it is. -/
def updateRecord (handle : Handle) (f : Record → Except Error Record) : ScopeM Unit := do
  let changed ← ScopeM.lift (f (← record handle))
  modify fun scope => scope.modifyRecord handle fun _ => changed

/-- The scope with one more entry. -/
def append (scope : Scope) (entry : Entry) : Scope :=
  { scope with entries := scope.entries ++ [entry] }

/-- Adds an entry at the end. -/
def push (record : Record) (state : Lifecycle) : ScopeM Handle := do
  let scope ← get
  set (scope.append { record, state })
  return scope.entries.length

/-- Notes that a handle stands for the row of a record's key. -/
def identify (model : String) (id : Int64) (handle : Handle) : ScopeM Unit :=
  modify fun scope => { scope with identity := scope.identity.insert (model, id) handle }

/-- Adds a record.  One without a key will be inserted; one with a key stands for its row, in the place of
the record that stood for it before. -/
def add (record : Record) : ScopeM Handle := do
  match record.id with
  | none => push record .pending
  | some id =>
      let scope ← get
      match scope.identity.find? (record.modelName, id) with
      | some handle =>
          -- The state stays: a record that was to be deleted still is.
          set (scope.modifyRecord handle fun _ => record)
          return handle
      | none =>
          let handle ← push record .persistent
          identify record.modelName id handle
          return handle

/-- Adds a fresh record of a model. -/
def create (env : Environment) (model : String) : ScopeM Handle := do
  let record ← ScopeM.lift (env.registry.instantiate model)
  add record

/-- Marks a record for deletion. -/
def delete (handle : Handle) : ScopeM Unit := do
  let _ ← entry handle
  modify fun scope => { scope with entries := scope.entries.modify handle fun entry =>
      { entry with state := entry.state.afterDelete } }

end Scope

end RecordStore
