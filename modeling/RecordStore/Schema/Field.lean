import RecordStore.Supply
import RecordStore.Value.Basic

/-!
# Fields

What a model declares about a field: a primitive type, a column with all its properties, a reference to
another model, the primary key, or only that descendants have to say (`FieldType.abstractField`).
-/

namespace RecordStore

/-! ## Columns given in full -/

/-- What a column holds in a row whose attribute was never assigned. -/
inductive DefaultValue where
  | value (v : Value)
  /-- A fresh short code for every row. -/
  | shortCode
  /-- The time at which the row is inserted. -/
  | currentTime

/-- The value a default gives, and the supply after it. -/
def DefaultValue.evaluate (supply : Supply) : DefaultValue → Value × Supply
  | value v => (v, supply)
  | shortCode => (.text supply.code, supply.advance)
  | currentTime => (.dateTime supply.now, supply.advance)

/-- The properties of a column that a declaration gives in full. -/
structure ColumnSpec where
  kind : StorageKind
  /-- Whether rows may leave the column empty. -/
  nullable : Bool := true
  default : Option DefaultValue := none
  /-- Whether no two rows may hold the same value. -/
  unique : Bool := false
  indexed : Bool := false
  /-- An explanation for descriptions of the model. -/
  doc : Option String := none

/-! ## Declared kinds -/

/-- The declared kind of a field. -/
inductive FieldType where
  | primitive (type : PrimitiveType)
  | column (spec : ColumnSpec)
  /-- A reference to the model of a name. -/
  | reference (target : String)
  | primaryKey
  /-- A field that a concrete descendant must define. -/
  | abstractField

namespace FieldType

/-- The kind that a token declares.  Columns and references carry more than a token can say. -/
def ofToken? (token : String) : Option FieldType :=
  if token = "primary-key-marker" then some primaryKey
  else if token = "abstract" then some abstractField
  else (PrimitiveType.ofToken? token).map primitive

/-- Whether the field is left to descendants. -/
def isAbstract : FieldType → Bool
  | abstractField => true
  | _ => false

/-- The name of the kind. -/
def kindName : FieldType → String
  | primitive _ => "primitive"
  | column _ => "raw-column-spec"
  | reference _ => "model-reference"
  | primaryKey => "primary-key-marker"
  | abstractField => "abstract"

/-- The kind in descriptions of a model. -/
def toText : FieldType → String
  | primitive type => type.token
  | column spec => spec.kind.toText
  | reference target => target
  | primaryKey => "primary-key-marker"
  | abstractField => "None (Abstract field)"

end FieldType

end RecordStore
