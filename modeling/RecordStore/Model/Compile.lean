import RecordStore.Model.Basic

/-!
# Compiling blueprints

Every field of a blueprint becomes one column.  A reference becomes a column that keeps the key of the
record referred to, a relationship, and a collection at the model referred to, which must be known
already.
-/

namespace RecordStore

/-- The name of the sequence that numbers the rows of a table. -/
def sequenceName (table : String) : String :=
  table ++ "_id_seq"

/-- The name of the column that keeps the keys of a reference. -/
def referenceColumn (field : String) : String :=
  "_" ++ field ++ "_id"

/-- What a field becomes. -/
structure CompiledField where
  column : Column
  /-- The relationship of a reference. -/
  relationship : Option Relationship := none
  /-- The model that a reference leads to, and the collection there. -/
  backReference : Option (String × BackReference) := none

/-- What a blueprint becomes. -/
structure Compiled where
  tableName : String
  relatedName : String
  columns : List Column
  relationships : List Relationship
  /-- The collections at other models, each with its model. -/
  backReferences : List (String × BackReference)

namespace Blueprint

/-- The column of a primary key. -/
def keyColumn (table field : String) : Column where
  name := field
  field
  kind := .integer
  nullable := false
  primaryKey := true
  sequence := some (sequenceName table)

/-- The column that a declaration gives in full. -/
def specColumn (field : String) (spec : ColumnSpec) : Column where
  name := field
  field
  kind := spec.kind
  nullable := spec.nullable
  default := spec.default
  unique := spec.unique
  indexed := spec.indexed
  tracked := spec.kind.isMutable
  doc := spec.doc

/-- The column of a primitive type. -/
def primitiveColumn (field : String) (type : PrimitiveType) : Column where
  name := field
  field
  kind := type.storageKind
  tracked := type.isMutable

/-- What a reference to a known model becomes. -/
def compileReference (model : String) (names : ModelNames) (field : String) (target : Model) :
    CompiledField :=
  let column := referenceColumn field
  { column := {
      name := column
      field
      kind := .integer
      nullable := false
      foreignKey := some {
        column
        table := target.tableName
        targetColumn := (target.primaryKey?.map (·.name)).getD "id" } }
    relationship := some { name := field, target := target.name, column, backReference := names.related }
    backReference := some (target.name, {
      name := names.related, source := model, relationship := field, column }) }

/-- What a field becomes; `find?` tells which models are known. -/
def compileField (find? : String → Option Model) (model : String) (names : ModelNames)
    (field : String) : FieldType → Except Error CompiledField
  | .primaryKey => .ok { column := keyColumn names.table field }
  | .column spec => .ok { column := specColumn field spec }
  | .reference target =>
      match find? target with
      | some target => .ok (compileReference model names field target)
      | none => .error (.lookup model field target)
  | .primitive type => .ok { column := primitiveColumn field type }
  | .abstractField => .error (.unsupportedOperation (.abstractField model field))

/-- What a blueprint becomes; `find?` tells which models are known. -/
def compile (find? : String → Option Model) (blueprint : Blueprint) : Except Error Compiled :=
  match blueprint.names with
  | none => .error (.unsupportedOperation (.compileAbstract blueprint.name))
  | some names => do
      let fields ← blueprint.fields.mapM fun entry =>
        compileField find? blueprint.name names entry.1 entry.2
      return {
        tableName := names.table
        relatedName := names.related
        columns := fields.map (·.column)
        relationships := fields.filterMap (·.relationship)
        backReferences := fields.filterMap (·.backReference) }

end Blueprint

end RecordStore
