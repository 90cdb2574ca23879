import RecordStore.Scope.Relation
import RecordStore.Text.Quoted

/-!
# Databases

A database is a registry of models over a storage, with at most one open scope.  Rows reach the storage
only when the scope is committed, all together; a scope that is rolled back, or whose commit fails, leaves
the storage as it was.
-/

namespace RecordStore

/-- A registry of models over a storage. -/
structure Database where
  registry : Registry := {}
  storage : Storage
  host : Host
  supply : Supply
  /-- The open scope. -/
  scope : Option Scope := none
  /-- Whether the storage was used since the database was opened.  Storages are opened when they are used for
  the first time. -/
  used : Bool := false

namespace Database

/-! ## The storage -/

/-- The database opened anew on the same storage, without models. -/
def reopen (db : Database) : Database :=
  { db with registry := {}, storage := db.storage.reopen, scope := none, used := false }

/-- Reads from the storage. -/
def read {α : Type} (db : Database) (f : Storage → Except Error α) : Except Error α × Database :=
  (f db.storage, { db with used := true })

/-- Changes the storage; a change that fails leaves it as it was. -/
def changeStorage (db : Database) (f : Storage → Except Error Storage) :
    Except Error Unit × Database :=
  match f db.storage with
  | .ok storage => (.ok (), { db with storage, used := true })
  | .error error => (.error error, { db with used := true })

/-- Creates the storage. -/
def createStorage (db : Database) : Except Error Unit × Database :=
  db.changeStorage fun storage => .ok storage.create

/-- Drops the storage.  One that is always there is only cleared, and one that is not open keeps what it
holds. -/
def dropStorage (db : Database) : Database :=
  if db.storage.isAlwaysThere && !db.used then db else { db with storage := db.storage.drop }

/-- Applies a batch.  An empty batch does not use the storage. -/
def write (db : Database) (batch : Batch) : Except Error Unit × Database :=
  if batch.isEmpty then (.ok (), db) else db.changeStorage fun storage => storage.apply batch

/-- Enters the tables of all models in the catalog. -/
def createSchema (db : Database) : Except Error Unit × Database :=
  db.changeStorage fun storage => storage.defineTables db.registry.tableSchemas

/-- Removes the tables of all models with their rows. -/
def dropSchema (db : Database) : Except Error Unit × Database :=
  db.changeStorage fun storage => storage.removeTables (db.registry.models.map (·.tableName))

/-- Stamps the storage and returns the stamp. -/
def stamp (db : Database) : Except Error Stamp × Database :=
  let stamp := Stamp.collect db.host db.supply.now
  let advanced := { db with supply := db.supply.advance }
  match advanced.changeStorage fun storage => storage.writeStamp stamp with
  | (.ok (), stamped) => (.ok stamp, stamped)
  | (.error error, unchanged) => (.error error, unchanged)

/-- The database as it is shown to programmers: the address and the names of the models. -/
def debugText (db : Database) : String :=
  "ModelRegistry \x7b storage: " ++ quoted db.storage.address.toText ++ ", models: [" ++
    ", ".intercalate (db.registry.models.map fun model => quoted model.name) ++ "] \x7d"

/-! ## Scopes -/

/-- What the actions of a scope read. -/
def environment (db : Database) : Environment where
  registry := db.registry
  storage := db.storage

/-- Opens a scope, unless one is open or the storage does not exist. -/
def openScope (db : Database) : Except Error Database :=
  if db.scope.isSome then .error (.scopeBusy db.storage.address.toText)
  else if db.storage.exists? then .ok { db with scope := some { supply := db.supply } }
  else .error (.storageUnavailable db.storage.address.toText)

/-- The database with its open scope as an action has left it. -/
def resume (db : Database) (scope : Scope) : Database :=
  { db with scope := some scope, supply := scope.supply, used := db.used || scope.consulted }

/-- Runs an action in the open scope. -/
def run {α : Type} (db : Database) (action : Environment → ScopeM α) : Except Error α × Database :=
  match db.scope with
  | none => (.error (.transaction "no scope is open"), db)
  | some scope =>
      match (action db.environment).run { scope with supply := db.supply } with
      | .ok a scope => (.ok a, db.resume scope)
      | .error error scope => (.error error, db.resume scope)

/-- Ends the open scope without writing anything. -/
def rollback (db : Database) : Database :=
  { db with scope := none }

/-- Ends the open scope and writes what is staged in it, all or nothing. -/
def commit (db : Database) : Except Error Unit × Database :=
  match db.run Scope.commit with
  | (.error error, after) => (.error error, after.rollback)
  | (.ok batch, after) =>
      match after.write batch with
      | (result, written) => (result, written.rollback)

/-- Runs a body in a scope of its own, which is committed when the body succeeds and rolled back when it
fails.  The body may have effects besides those on the database. -/
def transact {m : Type → Type} [Monad m] {α : Type} (db : Database)
    (body : Database → m (Except Error α × Database)) : m (Except Error α × Database) :=
  match db.openScope with
  | .error error => pure (.error error, db)
  | .ok opened => do
      match ← body opened with
      | (.error error, after) => return (.error error, after.rollback)
      | (.ok a, after) =>
          match after.commit with
          | (.ok (), written) => return (.ok a, written)
          | (.error error, written) => return (.error error, written)

end Database

end RecordStore
