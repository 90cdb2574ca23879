import RecordStore.Codec.Decoding
import RecordStore.Codec.Encoding
import RecordStore.Schema.Field
import RecordStore.Schema.Table

/-!
# Columns

A column is where the values of one attribute are kept.  Values pass through `Column.bind` when they are
written, which checks and converts them, and through `Column.load` when they are read back.
-/

namespace RecordStore

/-- The column of an attribute. -/
structure Column where
  /-- The name of the column and of the attribute. -/
  name : String
  /-- The field it was made from. -/
  field : String
  kind : StorageKind
  nullable : Bool := true
  default : Option DefaultValue := none
  unique : Bool := false
  indexed : Bool := false
  primaryKey : Bool := false
  /-- The sequence that gives the values of a primary key. -/
  sequence : Option String := none
  foreignKey : Option ForeignKey := none
  /-- Whether changes of values in place are noticed. -/
  tracked : Bool := false
  doc : Option String := none

/-! ## Scalars -/

namespace StorageKind

/-- The stored form of a value in a column of scalars; nothing when the value is of the wrong type.
Integers widen where floating-point numbers or decimals are kept. -/
def scalar? : StorageKind → Value → Option Value
  | bigInteger, .integer n => some (.integer n)
  | integer, .integer n => some (.integer n)
  | float, .float x => some (.float x)
  | float, .integer n => some (.float (.ofInt64 n))
  | boolean, .boolean b => some (.boolean b)
  | text, .text s => some (.text s)
  | varChar _, .text s => some (.text s)
  | numeric, .decimal d => some (.decimal d)
  | numeric, .integer n => some (.decimal (.ofInt64 n))
  | date, .date d => some (.date d)
  | dateTime, .dateTime t => some (.dateTime t)
  | time, .time t => some (.time t)
  | _, _ => none

/-- The limit of a column of bounded texts that a value exceeds. -/
def exceededLimit? : StorageKind → Value → Option UInt32
  | varChar limit, .text s => if limit.toNat < s.length then some limit else none
  | _, _ => none

end StorageKind

/-! ## Writing and reading -/

namespace Column

/-- The error of a column that rejects a value. -/
def reject (column : Column) (table : String) (violation : Violation) : Error :=
  .storageConstraint table column.name violation

/-- The stored form of a value that is kept as an encoded blob. -/
def blob (value : Value) : Except Error Value := do
  let bytes ← Error.ofData value.encode
  return .bytes bytes

/-- The stored form of a value in a column of scalars. -/
def bindScalar (column : Column) (table : String) (value : Value) : Except Error Value :=
  match column.kind.scalar? value with
  | none => .error (column.reject table (.wrongType column.kind value.typeName))
  | some stored =>
      match column.kind.exceededLimit? value with
      | some limit => .error (column.reject table (.tooLong limit))
      | none => .ok stored

/-- The stored form of a value that is written to the column of a table. -/
def bind (column : Column) (table : String) (value : Value) : Except Error Value :=
  match column.kind with
  | .container kind =>
      if value.containerKind? = some kind then blob value
      else .error (column.reject table (.notContainer kind value.typeName))
  | kind =>
      if value.isNull then
        if column.nullable then .ok .null else .error (column.reject table .notNull)
      else if kind = .opaqueBlob then blob value
      else column.bindScalar table value

/-- The value of a stored form. -/
def load (column : Column) : Value → Except Error Value
  | .bytes bytes =>
      if column.kind.isEncoded then Error.ofData (decode bytes) else .ok (.bytes bytes)
  | stored => .ok stored

end Column

end RecordStore
