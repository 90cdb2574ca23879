import RecordStore.Scope.Lookup

/-!
# Relations between records

A relationship leads from a record to the one it refers to; a collection leads back.  A reference to a
record without a key is kept as a link until a flush gives the key.
-/

namespace RecordStore

namespace Scope

/-- The relationship of a record. -/
def relationshipOf (record : Record) (field : String) : Except Error Relationship :=
  match record.model.relationship? field with
  | some relationship => .ok relationship
  | none => .error (record.unknown field)

/-- Lets a record refer to another. -/
def setReference (handle : Handle) (field : String) (target : Handle) : ScopeM Unit := do
  let source ← record handle
  let relationship ← ScopeM.lift (relationshipOf source field)
  let referred ← record target
  if referred.modelName ≠ relationship.target then
    throw (.invalidValue (.wrongTarget field relationship.target referred.modelName))
  let column := relationship.column
  -- A reference to a row is written at once and takes the place of a link.
  match referred.id with
  | some id =>
      modify fun scope =>
        { scope with links := scope.links.erase (handle, column) }.modifyRecord handle fun record =>
          (record.putValue column (.integer id)).markChanged column
  | none =>
      modify fun scope =>
        { scope with links := scope.links.insert (handle, column) target }.modifyRecord handle
          fun record => record.markChanged column

/-- The record that a record refers to. -/
def related (env : Environment) (handle : Handle) (field : String) : ScopeM (Option Handle) := do
  let source ← record handle
  let relationship ← ScopeM.lift (relationshipOf source field)
  match (← get).links.find? (handle, relationship.column) with
  | some target => return some target
  | none =>
      match ← ScopeM.lift (source.get relationship.column) with
      | .null => return none
      | .integer id => return some (← find env relationship.target id)
      | other => throw (.invalidValue (.notAKey relationship.column other.typeName))

/-- The records that refer to a key through collections. -/
def referring (env : Environment) (id : Int64) : List BackReference → ScopeM (List Handle)
  | [] => return []
  | reference :: rest => do
      let first ← findAll env reference.source reference.column (.integer id)
      let others ← referring env id rest
      return first ++ others

/-- The records of a collection of a record.  A record without a key is flushed first. -/
def backReference (env : Environment) (handle : Handle) (name : String) :
    ScopeM (List Handle) := do
  let target ← record handle
  let references := (env.registry.backReferences target.modelName).filter fun reference =>
    reference.name == name
  if references.isEmpty then throw (target.unknown name)
  if target.id.isNone then flush env
  match (← record handle).id with
  | some id => referring env id references
  | none => return []

end Scope

end RecordStore
