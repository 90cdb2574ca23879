import RecordStore.Codec.Decoding
import RecordStore.Codec.Encoding

/-!
# Tables

What a storage knows about a table: its columns, the sequence that numbers its rows, and which of its
columns are foreign keys, unique or indexed.  Such a description is stored as an encoded mapping.
-/

namespace RecordStore

/-- A column that holds the key of a row of another table. -/
structure ForeignKey where
  column : String
  /-- The table referred to. -/
  table : String
  /-- The key column of that table. -/
  targetColumn : String
deriving DecidableEq

/-- The description of a table. -/
structure TableSchema where
  table : String
  /-- The name of the model whose records the table holds. -/
  model : String
  columns : List String
  /-- The name of the sequence that numbers the rows. -/
  sequence : String
  foreignKeys : List ForeignKey := []
  unique : List String := []
  indexes : List String := []
deriving DecidableEq

namespace TableSchema

/-! ## Bytes -/

/-- A list of names as a value. -/
def namesValue (names : List String) : Value :=
  .list (names.map .text)

/-- A foreign key as a value. -/
def foreignKeyValue (key : ForeignKey) : Value :=
  .tuple [.text key.column, .text key.table, .text key.targetColumn]

/-- A description as a value. -/
def toValue (schema : TableSchema) : Value :=
  .mappingOf [
    ("table", .text schema.table),
    ("model", .text schema.model),
    ("columns", namesValue schema.columns),
    ("sequence", .text schema.sequence),
    ("foreign_keys", .list (schema.foreignKeys.map foreignKeyValue)),
    ("unique", namesValue schema.unique),
    ("indexes", namesValue schema.indexes)]

/-- The bytes of a description. -/
def toBytes (schema : TableSchema) : Except Error Bytes :=
  Error.ofData schema.toValue.encode

/-- The names in a value. -/
def namesOf? : Value → Option (List String)
  | .list items => items.mapM Value.asText?
  | _ => none

/-- The foreign key in a value. -/
def foreignKeyOf? : Value → Option ForeignKey
  | .tuple [.text column, .text table, .text targetColumn] => some { column, table, targetColumn }
  | _ => none

/-- The description in a value. -/
def ofValue? (value : Value) : Option TableSchema := do
  let entries ← value.asMapping?
  return {
    table := ← (← Entries.find? "table" entries).asText?
    model := ← (← Entries.find? "model" entries).asText?
    columns := ← namesOf? (← Entries.find? "columns" entries)
    sequence := ← (← Entries.find? "sequence" entries).asText?
    foreignKeys := ← (← (← Entries.find? "foreign_keys" entries).asList?).mapM foreignKeyOf?
    unique := ← namesOf? (← Entries.find? "unique" entries)
    indexes := ← namesOf? (← Entries.find? "indexes" entries) }

/-- The description of given bytes. -/
def ofBytes (bytes : Bytes) : Except Error TableSchema :=
  match (decode bytes).toOption.bind ofValue? with
  | some schema => .ok schema
  | none => .error (.deserialization "malformed table description")

end TableSchema

end RecordStore
