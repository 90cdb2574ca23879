import RecordStore.Model.Column
import RecordStore.Schema.Blueprint

/-!
# Models

A `Model` is a blueprint together with the columns that keep its records and the relationships that lead
from its records to others.  A relationship adds to its target a collection of the records that refer to
it, a `BackReference`.
-/

namespace RecordStore

/-- A reference from each record of a model to one record of another. -/
structure Relationship where
  /-- The field that declares it. -/
  name : String
  /-- The model referred to. -/
  target : String
  /-- The column that keeps the key of the record referred to. -/
  column : String
  /-- The collection at the target. -/
  backReference : String
deriving DecidableEq

/-- A collection at a model, of the records of another model that refer to it. -/
structure BackReference where
  /-- The name of the collection. -/
  name : String
  /-- The model that refers. -/
  source : String
  /-- The relationship of that model. -/
  relationship : String
  /-- The column of that model. -/
  column : String
deriving DecidableEq

/-- A model whose records can be stored. -/
structure Model where
  blueprint : Blueprint
  tableName : String
  relatedName : String
  /-- The columns, in the order of the fields. -/
  columns : List Column
  relationships : List Relationship

namespace Model

/-- The name of the model. -/
def name (model : Model) : String :=
  model.blueprint.name

/-- The column of a name. -/
def column? (model : Model) (name : String) : Option Column :=
  model.columns.find? fun column => column.name == name

/-- The column of the primary key. -/
def primaryKey? (model : Model) : Option Column :=
  model.columns.find? fun column => column.primaryKey

/-- The sequence that gives the values of the primary key. -/
def sequence? (model : Model) : Option String :=
  model.primaryKey?.bind (·.sequence)

/-- The relationship of a name. -/
def relationship? (model : Model) (name : String) : Option Relationship :=
  model.relationships.find? fun relationship => relationship.name == name

/-- The column that a column name or a relationship name stands for. -/
def attributeColumn? (model : Model) (name : String) : Option Column :=
  match model.column? name with
  | some column => some column
  | none => (model.relationship? name).bind fun relationship => model.column? relationship.column

/-- The description of the table of the model. -/
def tableSchema (model : Model) : TableSchema where
  table := model.tableName
  model := model.name
  columns := model.columns.map (·.name)
  sequence := model.sequence?.getD ""
  foreignKeys := model.columns.filterMap (·.foreignKey)
  unique := (model.columns.filter fun column => column.unique && !column.primaryKey).map (·.name)
  indexes := (model.columns.filter fun column => column.indexed).map (·.name)

/-- A description of the model for people. -/
def describe (model : Model) : String :=
  model.blueprint.describe

end Model

end RecordStore
