import RecordStore.Scope.RowImage
import RecordStore.Value.Equality

/-!
# Constraints

Before row images are staged they are checked against the rows that will be there afterwards: a unique
column must not hold the value of another row, and a foreign key must name a row.

Unique values are looked up in an index that is built once for every column that needs it.  The index
groups values into buckets so that equal values share a bucket; within a bucket they are compared.
-/

namespace RecordStore

/-- The values of a column by bucket, each with the number of its row. -/
abbrev UniqueIndex : Type := SortedMap Bytes (List (UInt64 × Value))

/-- The bucket of a value: its encoding, where zeros forget their sign and decimals their trailing zeros;
containers are told apart by shape and size only. -/
def uniqueBucket (value : Value) : Except Error Bytes :=
  match value with
  | .float x => Error.ofData (Value.float x.forgetZeroSign).encode
  | .decimal d => Error.ofData (Value.decimal d.normalize).encode
  | .list items | .tuple items | .set items | .frozenSet items =>
      .ok (textBytes (value.typeName ++ ":" ++ natText items.length))
  | .mapping entries => .ok (textBytes ("mapping:" ++ natText entries.length))
  | value => Error.ofData value.encode

/-- Adds a value to an index. -/
def indexValue (index : UniqueIndex) (entry : UInt64 × Value) : Except Error UniqueIndex := do
  if entry.2.isNull then return index
  let bucket ← uniqueBucket entry.2
  return index.insert bucket ((index.find? bucket).getD [] ++ [entry])

/-- Whether an index holds a value for another row. -/
def clashes (index : UniqueIndex) (bucket : Bytes) (id : UInt64) (value : Value) : Bool :=
  ((index.find? bucket).getD []).any fun entry => entry.1 != id && entry.2.equals value

namespace Scope

/-- The stored forms of a column in all visible rows of a table. -/
def columnValues (env : Environment) (scope : Scope) (table column : String) :
    Except Error (SortedMap UInt64 Value) := do
  let rows ← scope.visibleRows env table
  rows.toList.foldlM (fun values row => do
    let value ← Error.ofData (getColumn row.2.data column)
    return values.insert row.1 (value.getD .null)) ∅

/-- Lays a row image over the stored forms of a column. -/
def overlayImage (table column : String) (values : SortedMap UInt64 Value) (image : RowImage) :
    SortedMap UInt64 Value :=
  if image.model.tableName = table then
    match image.columns? with
    | some columns => values.insert image.id (storedColumn columns column)
    | none => values.erase image.id
  else values

/-- The index of a column in the rows that will be there after the images are staged. -/
def uniqueIndex (env : Environment) (scope : Scope) (table column : String)
    (images : List RowImage) : Except Error UniqueIndex := do
  let values ← scope.columnValues env table column
  (images.foldl (overlayImage table column) values).toList.foldlM indexValue ∅

/-- Whether a row will be there after the images are staged. -/
def rowWillBe (env : Environment) (scope : Scope) (table : String) (id : UInt64)
    (images : List RowImage) : Except Error Bool :=
  match images.find? fun image => image.id == id && image.model.tableName == table with
  | some image => .ok image.content.isSome
  | none => do return (← scope.visibleRow env table id).isSome

/-- The indexes built so far, by table and column. -/
abbrev Indexes : Type := SortedMap (String × String) UniqueIndex

/-- The index of a column, built when it is asked for the first time. -/
def indexFor (env : Environment) (scope : Scope) (images : List RowImage) (indexes : Indexes)
    (table column : String) : Except Error (UniqueIndex × Indexes) :=
  match indexes.find? (table, column) with
  | some index => .ok (index, indexes)
  | none => do
      let index ← scope.uniqueIndex env table column images
      return (index, indexes.insert (table, column) index)

/-- Checks that no other row holds the value of a unique column. -/
def checkUnique (env : Environment) (scope : Scope) (images : List RowImage) (image : RowImage)
    (column : Column) (value : Value) (indexes : Indexes) : Except Error Indexes := do
  if !column.unique || column.primaryKey then return indexes
  let table := image.model.tableName
  let (index, indexes) ← scope.indexFor env images indexes table column.name
  let bucket ← uniqueBucket value
  if clashes index bucket image.id value then throw (column.reject table .unique)
  return indexes

/-- Checks that a foreign key names a row. -/
def checkForeignKey (env : Environment) (scope : Scope) (images : List RowImage) (image : RowImage)
    (column : Column) (value : Value) : Except Error Unit := do
  match column.foreignKey with
  | none => return ()
  | some key =>
      let found ← match value with
        | .integer n =>
            if n.toInt < 0 then pure false
            else scope.rowWillBe env key.table n.toUInt64 images
        | _ => pure false
      if !found then throw (column.reject image.model.tableName .foreignKey)

/-- Checks one column of a row image. -/
def checkColumn (env : Environment) (scope : Scope) (images : List RowImage) (image : RowImage)
    (columns : List (String × Value)) (indexes : Indexes) (column : Column) :
    Except Error Indexes := do
  let value := storedColumn columns column.name
  if value.isNull then return indexes
  let indexes ← scope.checkUnique env images image column value indexes
  scope.checkForeignKey env images image column value
  return indexes

/-- Checks one row image. -/
def checkImage (env : Environment) (scope : Scope) (images : List RowImage) (indexes : Indexes)
    (image : RowImage) : Except Error Indexes :=
  match image.columns? with
  | none => .ok indexes
  | some columns =>
      image.model.columns.foldlM (scope.checkColumn env images image columns) indexes

/-- Checks row images against each other and against the visible rows. -/
def checkConstraints (env : Environment) (scope : Scope) (images : List RowImage) :
    Except Error Unit := do
  let _ ← images.foldlM (scope.checkImage env images) ∅
  return ()

end Scope

end RecordStore
