import RecordStore.Scope.Constraint

/-!
# Flushing

A flush brings the staged rows of a scope in step with its records.  It gives keys to new records, fills
references to records that had none, makes the images of all rows to write, checks them, and only then
stages them.

What a flush has done before it fails stays: keys, filled references and defaults.  The staged rows and
the lifecycles of the records change only when the whole flush succeeds.
-/

namespace RecordStore

namespace Scope

/-! ## Keys -/

/-- Checks that a table is in the catalog. -/
def requireTable (env : Environment) (table : String) : ScopeM Unit := do
  if (← get).knownTables.contains table then return ()
  match ← ScopeM.consult (env.storage.table? table) with
  | none => throw (.missingTable table)
  | some _ =>
      modify fun scope => { scope with knownTables := scope.knownTables.insert table () }

/-- The last number that a sequence has given, here or in the storage. -/
def sequenceValue (env : Environment) (scope : Scope) (sequence : String) : Except Error Nat :=
  match scope.sequences.find? sequence with
  | some value => .ok value
  | none => env.storage.sequenceValue sequence

/-- The next number of a sequence, as a key.  The number is used up even when it is too large. -/
def nextId (env : Environment) (sequence : String) : ScopeM Int64 := do
  let current ← ScopeM.lift ((← get).sequenceValue env sequence)
  let next := current + 1
  modify fun scope => { scope with sequences := scope.sequences.insert sequence next }
  if 9223372036854775808 ≤ next then throw (.invalidData (.sequenceExhausted sequence))
  return Int64.ofNat next

/-- Gives a key to a new record that has none. -/
def assignId (env : Environment) (handle : Handle) : ScopeM Unit := do
  let entry ← entry handle
  if entry.state = .pending ∧ entry.record.id = none then
    let model := entry.record.model
    requireTable env model.tableName
    match model.sequence? with
    | none => throw (.invalidData (.noPrimaryKey model.name))
    | some sequence =>
        let id ← nextId env sequence
        modify fun scope => scope.modifyRecord handle fun record => record.assignId id
        identify model.name id handle

/-- The handles of all records. -/
def handles (scope : Scope) : List Handle :=
  List.range scope.entries.length

/-- Gives keys to all new records that have none. -/
def assignIds (env : Environment) : ScopeM Unit := do
  (← get).handles.forM (assignId env)

/-! ## References -/

/-- The key that a reference to a record stands for; a record that goes away has none. -/
def linkedId? (scope : Scope) (target : Handle) : Option Int64 :=
  match scope.entries[target]? with
  | some entry => if entry.state.isLive then entry.record.id else none
  | none => none

/-- Fills a reference. -/
def resolveLink (link : (Handle × String) × Handle) : ScopeM Unit := do
  let ((handle, column), target) := link
  match (← get).linkedId? target with
  | none => throw (.invalidValue (.deletedTarget column))
  | some id =>
      modify fun scope => scope.modifyRecord handle fun record =>
        (record.putValue column (.integer id)).markChanged column

/-- Fills all references to records that had no key.  They are forgotten even when one of them cannot be
filled. -/
def resolveLinks : ScopeM Unit := do
  let scope ← get
  -- Before any of them is filled.
  set { scope with links := ∅ }
  scope.links.toList.forM resolveLink

/-! ## Images -/

/-- The image of a record, when there is something to write. -/
def image? (env : Environment) (handle : Handle) : ScopeM (Option RowImage) := do
  let entry ← entry handle
  match entry.state with
  | .pending => return some (← insertImage handle)
  | .persistent => if entry.record.isDirty then return some (← updateImage env handle) else return none
  | .deleted => return some (← deleteImage handle)
  | .removed => return none

/-- The images of records, one after the other. -/
def imagesOf (env : Environment) : List Handle → ScopeM (List RowImage)
  | [] => return []
  | handle :: rest => do
      match ← image? env handle with
      | some image => return image :: (← imagesOf env rest)
      | none => imagesOf env rest

/-- The images of all records. -/
def rowImages (env : Environment) : ScopeM (List RowImage) := do
  imagesOf env (← get).handles

/-! ## Staging -/

/-- Stages a row image. -/
def stageImage (staged : SortedMap (String × UInt64) (Option StoredRow)) (image : RowImage) :
    SortedMap (String × UInt64) (Option StoredRow) :=
  staged.insert (image.model.tableName, image.id) (image.content.map (·.1))

/-- Where a record stands after a flush; its changes are written unless it went away. -/
def settleEntry (entry : Entry) : Entry where
  record := if entry.state.isLive then entry.record.clearChanges else entry.record
  state := entry.state.afterFlush

/-- Stages row images and settles all records. -/
def settle (images : List RowImage) (scope : Scope) : Scope :=
  { scope with
    staged := images.foldl stageImage scope.staged
    entries := scope.entries.map settleEntry }

/-- Brings the staged rows in step with the records. -/
def flush (env : Environment) : ScopeM Unit := do
  -- References can be filled only after every new record has its key.
  assignIds env
  resolveLinks
  let images ← rowImages env
  ScopeM.lift ((← get).checkConstraints env images)
  modify (settle images)

/-! ## Committing -/

/-- Adds a staged row to a batch. -/
def addStaged (batch : Batch) (staged : (String × UInt64) × Option StoredRow) : Batch :=
  match staged.2 with
  | some row => batch.put staged.1.1 staged.1.2 row
  | none => batch.delete staged.1.1 staged.1.2

/-- All that the scope has to write. -/
def batch (scope : Scope) : Batch :=
  let rows := scope.staged.toList.foldl addStaged {}
  scope.sequences.toList.foldl (fun batch entry => batch.advance entry.1 entry.2) rows

/-- Flushes, and tells all that there is to write. -/
def commit (env : Environment) : ScopeM Batch := do
  flush env
  return (← get).batch

end Scope

end RecordStore
