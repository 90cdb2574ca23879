import RecordStore.Scope.Flush

/-!
# Looking records up

Records are found by their keys or by the value of an attribute.  Looking up by value flushes first, so
that the visible rows are those that the records of the scope stand for.
-/

namespace RecordStore

namespace Scope

/-- The value of a stored column, for the columns that a model has. -/
def loadColumn (model : Model) (loaded : List (String × Value)) (stored : String × Value) :
    Except Error (List (String × Value)) :=
  match model.column? stored.1 with
  | some column => do return loaded ++ [(stored.1, ← column.load stored.2)]
  | none => .ok loaded

/-- Adds the record of a row. -/
def materialize (env : Environment) (model : Model) (id : Int64) (row : StoredRow) :
    ScopeM Handle := do
  let stored ← ScopeM.lift (Error.ofData (decodeRow row.data))
  let loaded ← ScopeM.lift (stored.foldlM (loadColumn model) [])
  let record := Record.loaded model (env.registry.collectionNames model.name) id loaded
  let handle ← push record .persistent
  identify model.name id handle
  return handle

/-! ## By key -/

/-- The record of a key. -/
def find (env : Environment) (name : String) (id : Int64) : ScopeM Handle := do
  let model ← ScopeM.lift (env.registry.model name)
  let scope ← get
  match scope.identity.find? (model.name, id) with
  | some handle =>
      match scope.entries[handle]? with
      | some entry => if entry.state.isLive then return handle else throw (.notFound model.name)
      | none => throw (.notFound model.name)
  | none =>
      if id.toInt < 0 then throw (.notFound model.name)
      match ← lookUpRow env model.tableName id.toUInt64 with
      | some row => materialize env model id row
      | none => throw (.notFound model.name)

/-! ## By value -/

/-- Whether a row holds a value in a column. -/
def holds (column : Column) (value : Value) (row : StoredRow) : Except Error Bool := do
  let stored ← Error.ofData (getColumn row.data column.name)
  return (← column.load (stored.getD .null)).equals value

/-- Whether a row passes a filter. -/
def passes (filter : Option (Column × Value)) (row : StoredRow) : Except Error Bool :=
  match filter with
  | some (column, value) => holds column value row
  | none => .ok true

/-- The key of a row. -/
def keyOf (id : UInt64) : Except Error Int64 :=
  if 9223372036854775808 ≤ id.toNat then .error (.invalidData (.rowIdOutOfRange id))
  else .ok id.toInt64

/-- The record of a row, unless the row does not pass. -/
def selectRow (env : Environment) (model : Model) (filter : Option (Column × Value))
    (row : UInt64 × StoredRow) : ScopeM (Option Handle) := do
  if !(← ScopeM.lift (passes filter row.2)) then return none
  let id ← ScopeM.lift (keyOf row.1)
  match (← get).identity.find? (model.name, id) with
  | some handle => return some handle
  | none => return some (← materialize env model id row.2)

/-- The records of the rows that pass. -/
def selectRows (env : Environment) (model : Model) (filter : Option (Column × Value)) :
    List (UInt64 × StoredRow) → ScopeM (List Handle)
  | [] => return []
  | row :: rest => do
      match ← selectRow env model filter row with
      | some handle => return handle :: (← selectRows env model filter rest)
      | none => selectRows env model filter rest

/-- The column that is asked for, with the value that it must hold. -/
def resolveFilter (model : Model) :
    Option (String × Value) → Except Error (Option (Column × Value))
  | none => .ok none
  | some (attr, value) =>
      match model.attributeColumn? attr with
      | some column => .ok (some (column, value))
      | none => .error (.unknownAttribute model.name attr)

/-- The records of a model whose attribute has a value, or all of them, in the order of their keys. -/
def select (env : Environment) (name : String) (filter : Option (String × Value)) :
    ScopeM (List Handle) := do
  flush env
  let model ← ScopeM.lift (env.registry.model name)
  let filter ← ScopeM.lift (resolveFilter model filter)
  let rows ← ScopeM.consult ((← get).visibleRows env model.tableName)
  selectRows env model filter rows.toList

/-- All records of a model. -/
def all (env : Environment) (name : String) : ScopeM (List Handle) :=
  select env name none

/-- The records whose attribute has a value.  A relationship is compared by the key of its target. -/
def findAll (env : Environment) (name attr : String) (value : Value) : ScopeM (List Handle) :=
  select env name (some (attr, value))

/-- The first record whose attribute has a value. -/
def findFirst (env : Environment) (name attr : String) (value : Value) :
    ScopeM (Option Handle) := do
  return (← findAll env name attr value).head?

/-- The only record whose attribute has a value. -/
def findOne (env : Environment) (name attr : String) (value : Value) : ScopeM Handle := do
  match ← findAll env name attr value with
  | [handle] => return handle
  | [] => throw (.notFound name)
  | _ => throw (.multipleResults name)

/-- The session of a code or of a key. -/
def findSession (env : Environment) : Value → ScopeM Handle
  | .integer id => find env sessionModel id
  | .text code => findOne env sessionModel "code" (.text code)
  | other => throw (.invalidValue (.sessionKey other.typeName))

end Scope

end RecordStore
