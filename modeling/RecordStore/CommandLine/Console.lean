import RecordStore.CommandLine.Arguments
import RecordStore.Database

/-!
# Commands

What the commands do, with a `Console` on which they write and from which they read.  What a command has
written before it fails stays written.
-/

namespace RecordStore

/-! ## Errors -/

/-- Why a command fails. -/
inductive CommandError where
  | database (error : Error)
  | unknownModel (name : String)
  /-- The storage at an address has no stamp. -/
  | notStamped (address : String)

/-- The wording of a command error. -/
def CommandError.message : CommandError → String
  | database error => error.message
  | unknownModel name => "unknown model '" ++ name ++ "'"
  | notStamped address => "storage '" ++ address ++ "' is not stamped"

/-! ## Reading and writing -/

/-- What a command reads and writes. -/
structure Console where
  db : Database
  /-- The lines that have not been read, each with the end-of-line mark that ends it. -/
  input : List String := []
  output : String := ""

/-- What a command does. -/
abbrev CommandM (α : Type) : Type := EStateM CommandError Console α

/-- The lines of a text, each with the newline that ends it; `line` holds what was read of the first,
backwards. -/
def splitLines (line : List Char) : List Char → List String
  | [] => if line.isEmpty then [] else [String.ofList line.reverse]
  | c :: rest =>
      if c = '\n' then String.ofList (c :: line).reverse :: splitLines [] rest
      else splitLines (c :: line) rest

/-- The lines of a text. -/
def linesOf (text : String) : List String :=
  splitLines [] text.toList

namespace CommandM

/-- Takes over a result of the database. -/
def lift {α : Type} : Except Error α → CommandM α
  | .ok a => pure a
  | .error error => throw (.database error)

/-- Changes the database. -/
def change {α : Type} (f : Database → Except Error α × Database) : CommandM α := do
  let console ← get
  let (result, db) := f console.db
  set { console with db }
  lift result

/-- Writes a text. -/
def write (text : String) : CommandM Unit :=
  modify fun console => { console with output := console.output ++ text }

/-- Writes a line. -/
def writeLine (text : String) : CommandM Unit :=
  write (text ++ "\n")

end CommandM

open CommandM

/-! ## Confirmation -/

/-- The decision in a line, in any case and between blanks.  No letter outside the first 128 characters has
a lower-case form in either word. -/
def decisionOf? (line : String) : Option Bool :=
  let word := String.ofList ((trimBlanks line.toList).map Char.toLower)
  if word = "yes" then some true
  else if word = "no" then some false
  else none

/-- The decision in lines, how often the user has to be asked again, and the lines that are left.  Without a
decision the answer is no. -/
def decide? : List String → Bool × Nat × List String
  | [] => (false, 0, [])
  | line :: rest =>
      match decisionOf? line with
      | some decision => (decision, 0, rest)
      | none =>
          let (decision, repeats, left) := decide? rest
          (decision, repeats + 1, left)

/-- What the user is asked. -/
def confirmPrompt : String := "Do you want to clear the storage? [yes/no] "

/-- What the user is asked after a line without a decision. -/
def repeatPrompt : String := "Please answer 'yes' or 'no': "

/-- Asks the user whether to go on. -/
def confirm : CommandM Bool := do
  let (decision, repeats, left) := decide? (← get).input
  write (confirmPrompt ++ String.join (List.replicate repeats repeatPrompt))
  modify fun console => { console with input := left }
  return decision

/-! ## Commands -/

/-- The version of the program. -/
def programVersion : String := "0.1.0"

/-- The line that tells the version. -/
def versionLine : String :=
  "Ajiaco v." ++ programVersion ++ "\n"

/-- Drops the storage and creates it anew with all tables and a stamp. -/
def rebuildStorage : CommandM Unit := do
  writeLine ("Target: " ++ (← get).db.storage.address.toText)
  writeLine "  - Deleting Storage..."
  if (← get).db.storage.exists? then
    modify fun console => { console with db := console.db.dropStorage }
  writeLine "  - Creating Storage..."
  change Database.createStorage
  writeLine "  - Creating Schema..."
  change Database.createSchema
  writeLine "  - Stamping..."
  let _ ← change Database.stamp
  change fun db => db.read Storage.flush
  writeLine "DONE!"

/-- Rebuilds the storage if the user confirms or is not to be asked, and tells whether it did. -/
def resetStorage (noinput : Bool) : CommandM Bool := do
  let confirmed ← if noinput then pure true else confirm
  if confirmed then rebuildStorage
  return confirmed

/-- Writes the stamp. -/
def showStamp : CommandM Unit := do
  match ← change fun db => db.read Storage.readStamp with
  | some stamp => writeLine stamp.toJson
  | none => throw (.notStamped (← get).db.storage.address.toText)

/-- The line of a model in a list of models. -/
def modelLine (model : Model) : String :=
  let column (text : String) := String.ofList (padEnd 10 text.toList)
  column model.name ++ " table=" ++ column model.tableName ++ " columns=" ++
    natText model.columns.length

/-- Writes a list of all models, or the description of one. -/
def showModels (name : Option String) : CommandM Unit := do
  let registry := (← get).db.registry
  match name with
  | none => registry.models.forM fun model => writeLine (modelLine model)
  | some name =>
      match registry.find? name with
      | some model => writeLine model.describe
      | none => throw (.unknownModel name)

/-- Runs a command; only resetting the storage has something to tell. -/
def Command.perform : Command → CommandM (Option Bool)
  | version => do write versionLine; return none
  | resetStorage noinput => return some (← RecordStore.resetStorage noinput)
  | stamp => do showStamp; return none
  | models name => do showModels name; return none

/-- Whether a command waits for more input after the lines it was given. -/
def Command.awaits (command : Command) (lines : List String) : Bool :=
  command = .resetStorage false && lines.all fun line => (decisionOf? line).isNone

/-! ## Programs -/

/-- What programs find when they are started. -/
structure Machine where
  host : Host
  supply : Supply
  /-- What the storages on disk hold, by their paths. -/
  disk : SortedMap String Contents := ∅

namespace Machine

/-- The database of the experiment models at an address. -/
def openDatabase (machine : Machine) (address : String) : Except Error Database := do
  let address ← Address.parse address
  let storage := Storage.atAddress address
  let held := if address.isMemory then none else machine.disk.find? storage.settings.path
  let db : Database := {
    storage := { storage with contents := held }
    host := machine.host
    supply := machine.supply }
  let (registry, result) := db.registry.registerExperiment
  let _ ← result
  return { db with registry }

/-- The machine after a database was used. -/
def keep (machine : Machine) (db : Database) : Machine :=
  let path := db.storage.settings.path
  let disk :=
    if db.storage.isAlwaysThere then machine.disk
    else
      match db.storage.contents with
      | some contents => machine.disk.insert path contents
      | none => machine.disk.erase path
  { machine with supply := db.supply, disk }

/-- Runs a command on a database of its own; gives what it has written and the machine afterwards.  Showing
the version needs no database. -/
def execute (machine : Machine) (address : String) (command : Command) (input : String) :
    String × Except CommandError Unit × Machine :=
  if command = .version then (versionLine, .ok (), machine)
  else
    match machine.openDatabase address with
    | .error error => ("", .error (.database error), machine)
    | .ok db =>
        match command.perform.run { db, input := linesOf input } with
        | .ok _ console => (console.output, .ok (), machine.keep console.db)
        | .error error console => (console.output, .error error, machine.keep console.db)

end Machine

end RecordStore
