import RecordStore.Scope.Basic

/-!
# Visible rows

A scope sees the rows of the storage with the rows that it has staged laid over them.
-/

namespace RecordStore

/-- The row of a number in a table as a scope sees it. -/
def Scope.visibleRow (env : Environment) (scope : Scope) (table : String) (id : UInt64) :
    Except Error (Option StoredRow) :=
  match scope.staged.find? (table, id) with
  | some row => .ok row
  | none => env.storage.row? table id

/-- Looks for the row of a number in a table.  The storage is asked unless the row is staged. -/
def Scope.lookUpRow (env : Environment) (table : String) (id : UInt64) :
    ScopeM (Option StoredRow) := do
  let scope ← get
  let row := scope.visibleRow env table id
  if (scope.staged.find? (table, id)).isSome then ScopeM.lift row else ScopeM.consult row

/-- The rows of a scan by their numbers; a malformed key is an error. -/
def collectRows (rows : List (Except DataFault (UInt64 × StoredRow))) :
    Except Error (SortedMap UInt64 StoredRow) :=
  rows.foldlM (fun collected row => do
    let (id, row) ← Error.ofData row
    return collected.insert id row) ∅

/-- Lays a staged row over the rows of a table. -/
def overlayRow (table : String) (rows : SortedMap UInt64 StoredRow)
    (staged : (String × UInt64) × Option StoredRow) : SortedMap UInt64 StoredRow :=
  if staged.1.1 = table then
    match staged.2 with
    | some row => rows.insert staged.1.2 row
    | none => rows.erase staged.1.2
  else rows

/-- All rows of a table as a scope sees them, by their numbers. -/
def Scope.visibleRows (env : Environment) (scope : Scope) (table : String) :
    Except Error (SortedMap UInt64 StoredRow) := do
  let rows ← collectRows (← env.storage.scan table)
  return scope.staged.toList.foldl (overlayRow table) rows

end RecordStore
