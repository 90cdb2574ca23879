import RecordStore.Model.Basic

/-!
# Records

A record is an instance of a model, stored or not: a value for every column, the names of the columns that
were changed since the record was last in step with the storage, and, once it has one, its key.
-/

namespace RecordStore

/-- An instance of a model. -/
structure Record where
  model : Model
  /-- The primary key, once there is one. -/
  id : Option Int64
  /-- The values of the columns. -/
  values : SortedMap String Value
  /-- The columns that were changed. -/
  changed : NameSet
  /-- The names of the collections of records that refer to this one. -/
  collections : List String

namespace Record

/-! ## Making records -/

/-- A record that was never stored. -/
def new (model : Model) (collections : List String) : Record where
  model
  id := none
  values := .ofList (model.columns.map fun column => (column.name, .null))
  changed := ∅
  collections

/-- The name of the model. -/
def modelName (record : Record) : String :=
  record.model.name

/-- Stores a value in a column without marking it. -/
def putValue (record : Record) (column : String) (value : Value) : Record :=
  { record with values := record.values.insert column value }

/-- Marks a column as changed. -/
def markChanged (record : Record) (column : String) : Record :=
  { record with changed := record.changed.insert column () }

/-- Removes all marks. -/
def clearChanges (record : Record) : Record :=
  { record with changed := ∅ }

/-- Gives the record its key. -/
def assignId (record : Record) (id : Int64) : Record :=
  let identified := { record with id := some id }
  match record.model.primaryKey? with
  | some column => identified.putValue column.name (.integer id)
  | none => identified

/-- Takes over a stored value, unless the model has no such column. -/
def restore (record : Record) (entry : String × Value) : Record :=
  if record.values.contains entry.1 then record.putValue entry.1 entry.2 else record

/-- A record that was read from a storage. -/
def loaded (model : Model) (collections : List String) (id : Int64) (stored : List (String × Value)) :
    Record :=
  (stored.foldl restore (new model collections)).assignId id

/-! ## Attributes -/

/-- The error of an attribute that the record does not have. -/
def unknown (record : Record) (attr : String) : Error :=
  .unknownAttribute record.modelName attr

/-- The error of an attribute whose value has the wrong type. -/
def mismatch (record : Record) (attr : String) (value : Value) (expected : String) : Error :=
  .invalidValue (.typeMismatch record.modelName attr value.typeName expected)

/-- The value of a column. -/
def get (record : Record) (attr : String) : Except Error Value :=
  match record.values.find? attr with
  | some value => .ok value
  | none => .error (record.unknown attr)

/-- Assigns a column and marks it.  Whether the value fits is decided when it is written. -/
def set (record : Record) (attr : String) (value : Value) : Except Error Record :=
  match record.model.column? attr with
  | none => .error (record.unknown attr)
  | some column =>
      if column.primaryKey then .error (.invalidValue (.assignedKey attr))
      else .ok ((record.putValue attr value).markChanged attr)

/-- The value of a column as one type sees it; nothing when it is empty. -/
def typed {α : Type} (record : Record) (attr expected : String) (view : Value → Option α) :
    Except Error (Option α) := do
  let value ← record.get attr
  if value.isNull then return none
  match view value with
  | some a => return some a
  | none => throw (record.mismatch attr value expected)

/-- Whether a column is marked as changed. -/
def isChanged (record : Record) (attr : String) : Bool :=
  record.changed.contains attr

/-- Whether some column is marked as changed. -/
def isDirty (record : Record) : Bool :=
  !record.changed.isEmpty

/-- The names of the relationships. -/
def relationships (record : Record) : List String :=
  record.model.relationships.map (·.name)

/-- All attributes: columns, relationships and collections. -/
def attributes (record : Record) : List String :=
  record.model.columns.map (·.name) ++ record.relationships ++ record.collections

/-- Whether the record has an attribute. -/
def hasAttribute (record : Record) (attr : String) : Bool :=
  record.attributes.contains attr

/-- The record as it is shown: its model, its key and, if it has one, its code. -/
def toText (record : Record) : String :=
  let key := match record.id with
    | some id => intText id.toInt
    | none => "None"
  let code := match record.values.find? "code" with
    | some (.text code) => ", code='" ++ code ++ "'"
    | _ => ""
  record.modelName ++ "(id=" ++ key ++ code ++ ")"

end Record

end RecordStore
