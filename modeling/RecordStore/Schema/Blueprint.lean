import RecordStore.Error
import RecordStore.Schema.Field

/-!
# Blueprints and declarations

A `Blueprint` is the resolved description of a model: its fields in order and, unless it is abstract, the
names of its table and of the collections it adds to the models it refers to.  A `Declaration` describes
a model as an ancestor with overrides; `Declaration.compose` resolves it.

An override either fills a field that the ancestor left abstract, in its place, or adds a field at the
end.  Nothing else can be redefined, so the fields of an ancestor stand, in the same order, at the front
of the fields of every descendant.
-/

namespace RecordStore

/-! ## Blueprints -/

/-- The names that a concrete model needs. -/
structure ModelNames where
  table : String
  /-- The name of the collection of its records at a model that it refers to. -/
  related : String
deriving DecidableEq

/-- The resolved description of a model. -/
structure Blueprint where
  name : String
  /-- The names of a concrete model; an abstract model has none. -/
  names : Option ModelNames
  /-- The fields in order. -/
  fields : List (String × FieldType)
  doc : Option String := none
  /-- Further properties, kept as they are. -/
  extra : SortedMap String Value := ∅

namespace Blueprint

/-- The abstract model that every other model extends: a primary key and a mapping for data that needs
no field of its own. -/
def base : Blueprint where
  name := "Model"
  names := none
  fields := [("id", .primaryKey), ("data", .primitive .mapping)]

/-- Whether only descendants of the model can be registered. -/
def isAbstract (blueprint : Blueprint) : Bool :=
  blueprint.names.isNone

/-- The kind of the field of a name. -/
def field? (blueprint : Blueprint) (name : String) : Option FieldType :=
  (blueprint.fields.find? fun entry => entry.1 == name).map (·.2)

/-- The line of a field in a description, with the explanation of its column below it. -/
def fieldText (name : String) : FieldType → String
  | .column spec =>
      name ++ " : " ++ spec.kind.toText ++
        (if spec.default.isSome then " (optional)" else "") ++
        (match spec.doc with
          | some doc => "\n    " ++ doc
          | none => "")
  | type => name ++ " : " ++ type.toText

/-- A description of the model for people. -/
def describe (blueprint : Blueprint) : String :=
  let title := blueprint.doc.getD ("Model " ++ blueprint.name)
  let lines := blueprint.fields.map fun entry => fieldText entry.1 entry.2
  "\n".intercalate (title :: "Parameters" :: "----------" :: "" :: lines)

end Blueprint

/-! ## Declarations -/

/-- How a declaration gives the kind of a field. -/
inductive FieldDeclaration where
  | typed (type : FieldType)
  /-- By a token, which may turn out to name no kind. -/
  | named (token : String)

/-- The kind that is meant; the fault tells that a token names none. -/
def FieldDeclaration.resolve (model field : String) :
    FieldDeclaration → Except FieldError FieldType
  | typed type => .ok type
  | named token =>
      match FieldType.ofToken? token with
      | some type => .ok type
      | none => .error (.invalidType model field token)

/-- A model described as an ancestor with overrides. -/
structure Declaration where
  name : String
  ancestor : Blueprint := .base
  isAbstract : Bool := false
  tableName : Option String := none
  relatedName : Option String := none
  doc : Option String := none
  /-- Fields that are filled or added, in order. -/
  overrides : List (String × FieldDeclaration) := []
  extra : SortedMap String Value := ∅

/-- Fields after one of them is filled or added; nothing when it is there and not abstract. -/
def defineField? (name : String) (type : FieldType) :
    List (String × FieldType) → Option (List (String × FieldType))
  | [] => some [(name, type)]
  | (other, old) :: rest =>
      if other = name then
        if old.isAbstract then some ((other, type) :: rest) else none
      else (defineField? name type rest).map ((other, old) :: ·)

/-- Whether a name is reserved for generated columns. -/
def isReserved (name : String) : Bool :=
  name.toList.head? == some '_'

/-- Fields after one override. -/
def applyOverride (model : String) (fields : List (String × FieldType))
    (override : String × FieldDeclaration) : Except FieldError (List (String × FieldType)) := do
  let (name, declared) := override
  if name.isEmpty then throw (.emptyName model)
  if isReserved name then throw (.reservedPrefix model name)
  let type ← declared.resolve model name
  match defineField? name type fields with
  | some fields => return fields
  | none => throw (.redefinition model name)

namespace Declaration

/-- A name that a concrete model needs. -/
def require (model attr : String) : Option String → Except FieldError String
  | some value => if value.isEmpty then .error (.missingAttribute model attr) else .ok value
  | none => .error (.missingAttribute model attr)

/-- The names of the declared model. -/
def resolveNames (declaration : Declaration) : Except FieldError (Option ModelNames) := do
  if declaration.isAbstract then return none
  let table ← require declaration.name "table_name" declaration.tableName
  let related ← require declaration.name "related_name" declaration.relatedName
  return some { table, related }

/-- The fields of the ancestor after all overrides. -/
def resolveFields (declaration : Declaration) : Except FieldError (List (String × FieldType)) :=
  declaration.overrides.foldlM (applyOverride declaration.name) declaration.ancestor.fields

/-- The blueprint of the declared model. -/
def compose (declaration : Declaration) : Except FieldError Blueprint := do
  let names ← declaration.resolveNames
  let fields ← declaration.resolveFields
  match fields.find? fun entry => entry.2.isAbstract && !declaration.isAbstract with
  | some (field, _) => throw (.unresolvedAbstract declaration.name field)
  | none =>
      return {
        name := declaration.name
        names
        fields
        doc := declaration.doc
        extra := declaration.extra }

end Declaration

end RecordStore
