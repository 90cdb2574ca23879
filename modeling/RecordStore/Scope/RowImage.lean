import RecordStore.Scope.Visible

/-!
# Row images

What a flush is going to write for a record: the stored forms of all its columns, or that its row goes
away.  A new row takes defaults for columns that were never assigned; a row that is there keeps the stored
forms of columns that were not changed, as they are.
-/

namespace RecordStore

/-- What a flush writes for one record. -/
structure RowImage where
  model : Model
  id : UInt64
  /-- The new row with its columns; a deleted row is nothing. -/
  content : Option (StoredRow × List (String × Value))

/-- The columns of a new row, when there is one. -/
def RowImage.columns? (image : RowImage) : Option (List (String × Value)) :=
  image.content.map (·.2)

/-- The stored form of a column among others; an absent column is empty. -/
def storedColumn (columns : List (String × Value)) (name : String) : Value :=
  match columns.find? fun entry => entry.1 == name with
  | some entry => entry.2
  | none => .null

/-- The key of a record that has one. -/
def Record.requireId (record : Record) : Except Error Int64 :=
  match record.id with
  | some id => .ok id
  | none => .error (.invalidData (.unsavedRecord record.modelName))

/-- The number of the row of a key. -/
def rowIdOf (id : Int64) : Except Error UInt64 :=
  if id.toInt < 0 then .error (.invalidData (.negativeRowId id)) else .ok id.toUInt64

/-- The bytes of a row. -/
def encodeColumns (columns : List (String × Value)) : Except Error Bytes :=
  Error.ofData (encodeRow columns)

namespace Scope

/-- The current time. -/
def now : ScopeM DateTime := do
  let scope ← get
  set { scope with supply := scope.supply.advance }
  return scope.supply.now

/-- The value of a default. -/
def evaluateDefault (default : DefaultValue) : ScopeM Value := do
  let scope ← get
  let (value, supply) := default.evaluate scope.supply
  set { scope with supply }
  return value

/-! ## New rows -/

/-- The stored form of a column of a new row.  A default is also given to the record. -/
def insertColumn (handle : Handle) (record : Record) (id : Int64) (column : Column) :
    ScopeM (String × Value) := do
  let table := record.model.tableName
  if column.primaryKey then return (column.name, .integer id)
  if record.isChanged column.name then
    let value ← ScopeM.lift (record.get column.name)
    return (column.name, ← ScopeM.lift (column.bind table value))
  match column.default with
  | some default =>
      let value ← evaluateDefault default
      let bound ← ScopeM.lift (column.bind table value)
      modify fun scope => scope.modifyRecord handle fun record => record.putValue column.name value
      return (column.name, bound)
  | none =>
      if column.nullable then return (column.name, .null)
      return (column.name, ← ScopeM.lift (column.bind table .null))

/-- The stored forms of columns of a new row, one after the other. -/
def insertColumns (handle : Handle) (record : Record) (id : Int64) :
    List Column → ScopeM (List (String × Value))
  | [] => return []
  | column :: rest => do
      let first ← insertColumn handle record id column
      let others ← insertColumns handle record id rest
      return first :: others

/-- The image of a record that is to be inserted. -/
def insertImage (handle : Handle) : ScopeM RowImage := do
  let record ← record handle
  let id ← ScopeM.lift record.requireId
  let columns ← insertColumns handle record id record.model.columns
  let data ← ScopeM.lift (encodeColumns columns)
  -- The clock is read once the data is known to be sound.
  let row := StoredRow.new data (← now)
  let rowId ← ScopeM.lift (rowIdOf id)
  return { model := record.model, id := rowId, content := some (row, columns) }

/-! ## Changed and deleted rows -/

/-- The stored form of a column of a row that is there, or of a row that has gone. -/
def updateColumn (record : Record) (id : Int64) (existing : List (String × Value)) (column : Column) :
    Except Error (String × Value) := do
  if column.primaryKey then return (column.name, .integer id)
  if record.isChanged column.name then
    let value ← record.get column.name
    return (column.name, ← column.bind record.model.tableName value)
  return (column.name, storedColumn existing column.name)

/-- The columns of a stored row; a row that is not there has none. -/
def existingColumns : Option StoredRow → Except Error (List (String × Value))
  | some row => Error.ofData (decodeRow row.data)
  | none => .ok []

/-- The image of a record that was changed. -/
def updateImage (env : Environment) (handle : Handle) : ScopeM RowImage := do
  let record ← record handle
  let id ← ScopeM.lift record.requireId
  let rowId ← ScopeM.lift (rowIdOf id)
  let existing ← lookUpRow env record.model.tableName rowId
  let stored ← ScopeM.lift (existingColumns existing)
  let columns ← ScopeM.lift (record.model.columns.mapM (updateColumn record id stored))
  let data ← ScopeM.lift (encodeColumns columns)
  let time ← now
  let row := match existing with
    | some row => row.updated data time
    | none => .new data time
  return { model := record.model, id := rowId, content := some (row, columns) }

/-- The image of a record that is to be deleted. -/
def deleteImage (handle : Handle) : ScopeM RowImage := do
  let record ← record handle
  let id ← ScopeM.lift record.requireId
  let rowId ← ScopeM.lift (rowIdOf id)
  return { model := record.model, id := rowId, content := none }

end Scope

end RecordStore
