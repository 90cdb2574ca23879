import RecordStore.Database
import RecordStore.Proofs.Scope.Soundness

/-!
# Runs of scopes

A `Run` is a database in which scopes are opened, worked in and ended, one after the other, with a
journal of what happened in them.  The journal belongs to nobody: no step reads it.  It says what
the rows of the storage have to hold (`Journal.Accounts`).

What happens in a scope is noted by the handles of its records.  When the scope is committed it is
noted for good, by the keys that the records have then; when the scope ends in any other way it is
forgotten.
-/

namespace RecordStore

/-! ## Steps -/

/-- What can be done in an open scope. -/
inductive Act where
  | create (model : String)
  | find (model : String) (id : Int64)
  | all (model : String)
  | findAll (model attr : String) (value : Value)
  | findFirst (model attr : String) (value : Value)
  | findOne (model attr : String) (value : Value)
  | findSession (key : Value)
  | related (handle : Handle) (field : String)
  | backReference (handle : Handle) (name : String)
  | assign (handle : Handle) (attr : String) (value : Value)
  | setReference (handle : Handle) (field : String) (target : Handle)
  | delete (handle : Handle)
  | flush

/-- Does an act, whatever it gives. -/
def Act.perform (act : Act) (env : Environment) : ScopeM Unit :=
  match act with
  | create model => discard (Scope.create env model)
  | find model id => discard (Scope.find env model id)
  | all model => discard (Scope.all env model)
  | findAll model attr value => discard (Scope.findAll env model attr value)
  | findFirst model attr value => discard (Scope.findFirst env model attr value)
  | findOne model attr value => discard (Scope.findOne env model attr value)
  | findSession key => discard (Scope.findSession env key)
  | related handle field => discard (Scope.related env handle field)
  | backReference handle name => discard (Scope.backReference env handle name)
  | assign handle attr value => Scope.updateRecord handle fun record => record.set attr value
  | setReference handle field target => Scope.setReference handle field target
  | delete handle => Scope.delete handle
  | flush => Scope.flush env

/-- What can be done with a database. -/
inductive Step where
  | openScope
  | act (act : Act)
  | commit
  | rollback

/-! ## Journals -/

/-- What happened in the scopes of a database. -/
structure Journal where
  /-- What was assigned to columns of records in the open scope, the latest first. -/
  assigned : List ((Handle × String) × Value) := []
  /-- How far the supply had come before and after records of the open scope were inserted. -/
  inserted : List (Handle × Nat × Nat) := []
  /-- What was assigned to columns of rows in committed scopes, the latest first. -/
  committedValues : List (((String × Int64) × String) × Value) := []
  /-- How far the supply had come before and after rows were inserted by committed scopes. -/
  committedInserts : List ((String × Int64) × Nat × Nat) := []

/-- Where a record stands. -/
def Scope.stateOf (scope : Scope) (handle : Handle) : Option Lifecycle :=
  (scope.entries[handle]?).map (·.state)

/-- The row of a record that has a key: the name of its model and the key. -/
def Scope.rowOf (scope : Scope) (handle : Handle) : Option (String × Int64) :=
  (scope.entries[handle]?).bind fun entry =>
    entry.record.id.map fun id => (entry.record.modelName, id)

/-- The records that were new in one state of a scope and are stored in a later one. -/
def Scope.newlyStored (before after : Scope) : List Handle :=
  before.handles.filter fun handle =>
    before.stateOf handle = some .pending ∧ after.stateOf handle = some .persistent

/-- An assignment to a record as an assignment to its row. -/
def Scope.rowAssignment? (scope : Scope) (assignment : (Handle × String) × Value) :
    Option (((String × Int64) × String) × Value) :=
  (scope.rowOf assignment.1.1).map fun row => ((row, assignment.1.2), assignment.2)

/-- The insertion of a record as the insertion of its row. -/
def Scope.rowInsertion? (scope : Scope) (insertion : Handle × Nat × Nat) :
    Option ((String × Int64) × Nat × Nat) :=
  (scope.rowOf insertion.1).map fun row => (row, insertion.2)

namespace Journal

/-- Notes an act that was done; only assignments are of interest. -/
def noteAct (journal : Journal) : Act → Journal
  | .assign handle attr value =>
      { journal with assigned := ((handle, attr), value) :: journal.assigned }
  | _ => journal

/-- Notes what was inserted between two states of a database. -/
def noteInserts (journal : Journal) (before after : Database) : Journal :=
  match before.scope, after.scope with
  | some old, some new =>
      let inserts := (old.newlyStored new).map fun handle =>
        (handle, before.supply.drawn, after.supply.drawn)
      { journal with inserted := inserts ++ journal.inserted }
  | _, _ => journal

/-- Forgets the open scope. -/
def forget (journal : Journal) : Journal :=
  { journal with assigned := [], inserted := [] }

/-- Notes for good what happened in a scope, whose records have their keys by now. -/
def settle (journal : Journal) (scope : Scope) : Journal where
  committedValues := journal.assigned.filterMap scope.rowAssignment? ++ journal.committedValues
  committedInserts := journal.inserted.filterMap scope.rowInsertion? ++ journal.committedInserts

/-- The last value assigned to a column of a row in a committed scope. -/
def value? (journal : Journal) (model : String) (id : Int64) (column : String) : Option Value :=
  Entries.find? ((model, id), column) journal.committedValues

/-- Whether a row may have been inserted when the supply had come to a number. -/
def Inserts (journal : Journal) (model : String) (id : Int64) (n : Nat) : Prop :=
  ∃ first last, ((model, id), first, last) ∈ journal.committedInserts ∧ first ≤ n ∧ n ≤ last

/-- What a row has to hold in a column: the stored form of the last value assigned to the column in
a committed scope, or what the column held when the row was inserted. -/
def Accounts (journal : Journal) (clock : Supply) (model : Model) (id : Int64) (column : Column)
    (stored : Value) : Prop :=
  match journal.value? model.name id column.name with
  | some value => column.bind model.tableName value = .ok stored
  | none => column.HoldsInitial clock model.tableName (journal.Inserts model.name id) stored

/-- Whether a record of a row holds in a column what the row has to hold there. -/
def ReadsAs (journal : Journal) (clock : Supply) (record : Record) (id : Int64) (column : Column) :
    Prop :=
  ∃ stored value, journal.Accounts clock record.model id column stored ∧
    column.load stored = .ok value ∧ record.get column.name = .ok value

end Journal

/-! ## Runs -/

/-- A database with the journal of its scopes. -/
structure Run where
  db : Database
  journal : Journal := {}

namespace Run

/-- The run after an act in the open scope. -/
def act (run : Run) (act : Act) : Run :=
  match run.db.run act.perform with
  | (.ok (), after) =>
      { db := after, journal := (run.journal.noteAct act).noteInserts run.db after }
  | (.error _, after) => { db := after, journal := run.journal.noteInserts run.db after }

/-- The journal that is kept when the open scope is committed. -/
def committedJournal (run : Run) : Journal :=
  let flushed := run.act .flush
  match flushed.db.scope with
  | some scope => flushed.journal.settle scope
  | none => flushed.journal

/-- The run after a step. -/
def step (run : Run) : Step → Run
  | .openScope =>
      match run.db.openScope with
      | .ok opened => { db := opened, journal := run.journal.forget }
      | .error _ => run
  | .act act => run.act act
  | .commit =>
      match run.db.commit with
      | (.ok (), after) => { db := after, journal := run.committedJournal }
      | (.error _, after) => { db := after, journal := run.journal.forget }
  | .rollback => { db := run.db.rollback, journal := run.journal.forget }

/-- Whether a column of a row was assigned in the open scope, by the keys that records have once the
scope is flushed. -/
def Assigned (run : Run) (model : String) (id : Int64) (column : String) : Prop :=
  ∃ (scope : Scope) (handle : Handle) (value : Value), (run.act .flush).db.scope = some scope ∧
    scope.rowOf handle = some (model, id) ∧ ((handle, column), value) ∈ run.journal.assigned

end Run

end RecordStore
