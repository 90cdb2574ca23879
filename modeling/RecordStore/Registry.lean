import RecordStore.Model.Compile
import RecordStore.Schema.Experiment

/-!
# Registries of models

A registry holds models in the order in which they were registered.  It is indexed by the names of models
and of tables, and it keeps for every model the collections that others have added to it.

Registration is all or nothing, for one model (`Registry.register`) and for a list of them
(`Registry.registerAll`): after a failure the registry is as it was before.
-/

namespace RecordStore

/-- A registry of models. -/
structure Registry where
  /-- The models in the order of their registration. -/
  models : List Model := []
  /-- The place of each model among the models. -/
  byName : SortedMap String Nat := ∅
  /-- The model that owns each table. -/
  byTable : SortedMap String String := ∅
  /-- The collections at each model, in the order of their registration. -/
  collections : SortedMap String (List BackReference) := ∅

/-- What can be registered, or at least handed in for registration. -/
inductive Candidate where
  | declaration (declaration : Declaration)
  | blueprint (blueprint : Blueprint)
  /-- A model that has been registered somewhere, which no registry accepts. -/
  | registered (model : Model)

namespace Candidate

/-- The blueprint that is handed in. -/
def resolve : Candidate → Except Error Blueprint
  | declaration declared =>
      match declared.compose with
      | .ok resolved => .ok resolved
      | .error fault => .error (.field fault)
  | blueprint resolved => .ok resolved
  | registered model => .error (.unsupportedOperation (.alreadyPhysical model.name))

end Candidate

namespace Registry

/-! ## Look-ups -/

/-- The model of a name. -/
def find? (registry : Registry) (name : String) : Option Model :=
  (registry.byName.find? name).bind fun place => registry.models[place]?

/-- The model of a name, which has to be there. -/
def model (registry : Registry) (name : String) : Except Error Model :=
  match registry.find? name with
  | some model => .ok model
  | none => .error (.unknownModel name)

/-- The collections at a model. -/
def backReferences (registry : Registry) (name : String) : List BackReference :=
  (registry.collections.find? name).getD []

/-- The names of the collections at a model, each once. -/
def collectionNames (registry : Registry) (name : String) : List String :=
  (registry.backReferences name).foldl
    (fun names reference =>
      if names.contains reference.name then names else names ++ [reference.name]) []

/-- The tables of all models. -/
def tableSchemas (registry : Registry) : List TableSchema :=
  registry.models.map (·.tableSchema)

/-! ## Registration -/

/-- Adds a collection at a model. -/
def addCollection (collections : SortedMap String (List BackReference))
    (entry : String × BackReference) : SortedMap String (List BackReference) :=
  collections.insert entry.1 ((collections.find? entry.1).getD [] ++ [entry.2])

/-- Checks that a blueprint is not abstract and that neither its name nor its table is taken. -/
def checkNew (registry : Registry) (blueprint : Blueprint) : Except Error Unit :=
  match blueprint.names with
  | none => .error (.unsupportedOperation (.registerAbstract blueprint.name))
  | some names =>
      if registry.byName.contains blueprint.name then
        .error (.duplicateRegistration blueprint.name)
      else
        match registry.byTable.find? names.table with
        | some owner => .error (.duplicateTable blueprint.name names.table owner)
        | none => .ok ()

/-- The registry with one more model. -/
def add (registry : Registry) (blueprint : Blueprint) (compiled : Compiled) : Registry × Model :=
  let model : Model := {
    blueprint
    tableName := compiled.tableName
    relatedName := compiled.relatedName
    columns := compiled.columns
    relationships := compiled.relationships }
  ({ models := registry.models ++ [model]
     byName := registry.byName.insert model.name registry.models.length
     byTable := registry.byTable.insert model.tableName model.name
     collections := compiled.backReferences.foldl addCollection registry.collections }, model)

/-- Compiles and registers a model. -/
def register (registry : Registry) (candidate : Candidate) : Except Error (Registry × Model) := do
  let blueprint ← candidate.resolve
  registry.checkNew blueprint
  let compiled ← blueprint.compile registry.find?
  return registry.add blueprint compiled

/-- The registry without a model that was the last one registered. -/
def remove (registry : Registry) (model : Model) : Registry where
  models := registry.models.dropLast
  byName := registry.byName.erase model.name
  byTable := registry.byTable.erase model.tableName
  collections := registry.collections.mapValues fun references =>
    references.filter fun reference => reference.source != model.name

/-- The registry without collections that hold nothing. -/
def dropEmptyCollections (registry : Registry) : Registry :=
  { registry with collections := registry.collections.filter fun _ references => !references.isEmpty }

/-- The registry with only its first models. -/
def truncate (registry : Registry) (count : Nat) : Registry :=
  ((registry.models.drop count).foldr (fun model registry => registry.remove model)
    registry).dropEmptyCollections

/-- Registers models in order; the first failure ends it, and the registry is returned as far as it has
come. -/
def registerEach (registry : Registry) : List Candidate → Registry × Except Error (List Model)
  | [] => (registry, .ok [])
  | candidate :: rest =>
      match registry.register candidate with
      | .error error => (registry, .error error)
      | .ok (registry, model) =>
          match registry.registerEach rest with
          | (registry, .ok models) => (registry, .ok (model :: models))
          | (registry, .error error) => (registry, .error error)

/-- Registers models in order; when one fails, those before it are taken back. -/
def registerAll (registry : Registry) (candidates : List Candidate) :
    Registry × Except Error (List Model) :=
  match registry.registerEach candidates with
  | (extended, .error error) => (extended.truncate registry.models.length, .error error)
  | result => result

/-- Composes a concrete model over a blueprint and registers it. -/
def create (registry : Registry) (name : String) (base : Blueprint)
    (fields : List (String × FieldType)) (table related : String) (extra : SortedMap String Value) :
    Except Error (Registry × Model) :=
  registry.register (.declaration {
    name
    ancestor := base
    tableName := some table
    relatedName := some related
    overrides := fields.map fun entry => (entry.1, .typed entry.2)
    extra })

/-- Registers the five models of experiments. -/
def registerExperiment (registry : Registry) : Registry × Except Error (List Model) :=
  match experimentModels with
  | .ok declarations => registry.registerAll (declarations.map .declaration)
  | .error fault => (registry, .error (.field fault))

end Registry

end RecordStore
