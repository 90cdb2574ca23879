import RecordStore.CommandLine.Settings
import RecordStore.Text.Quoted

/-!
# Arguments of the command line

The arguments are options and the word of a command, followed by further options and the operands of the
command.  The general options (storage, verbosity, debugging) may stand before or after the word; after it
they win.  Short options without values can be written together, and `--` ends the options.

A storage option whose value is an argument of its own is taken over only when the next argument is
understood (`Given.settle`), and before the word of a command only when the whole command is.  Of several
faults the user is therefore told the one in the later argument.
-/

namespace RecordStore

/-! ## Commands -/

/-- What the program can do. -/
inductive Command where
  | version
  /-- Drop the storage and create it anew, if the user confirms or is not to be asked. -/
  | resetStorage (noinput : Bool)
  | stamp
  /-- List all models, or describe one. -/
  | models (name : Option String)
deriving DecidableEq

/-- A command as it is shown to programmers. -/
def Command.debugText : Command → String
  | version => "Version"
  | resetStorage noinput =>
      "ResetStorage \x7b noinput: " ++ (if noinput then "true" else "false") ++ " \x7d"
  | stamp => "Stamp"
  | models (some name) => "Models \x7b name: Some(" ++ quoted name ++ ") \x7d"
  | models none => "Models \x7b name: None \x7d"

/-- Why arguments give no command. -/
inductive UsageError where
  /-- Help is asked for. -/
  | help
  /-- The version is asked for by an option. -/
  | versionText
  /-- There are no arguments at all. -/
  | nothingGiven
  | missingCommand
  | unknownCommand
  | unknownArgument
  /-- An option lacks its value. -/
  | missingValue
  /-- An option without value is given one. -/
  | unexpectedValue
  /-- An option is given twice. -/
  | repeated
deriving DecidableEq

/-- What is told when arguments give no command. -/
def UsageError.message : UsageError → String
  | help | nothingGiven => "Usage: ajc [OPTIONS] <COMMAND>\n\n" ++
      "Commands:\n" ++
      "  version        Show the version\n" ++
      "  reset-storage  Drop and recreate the storage, its schema and its stamp\n" ++
      "  stamp          Show the storage stamp\n" ++
      "  models         List the experiment models, or describe one\n\n" ++
      "Options:\n" ++
      "  -s, --storage <STORAGE>  Storage address\n" ++
      "  -v, --verbose...         Increase verbosity\n" ++
      "      --debug              Debug mode\n" ++
      "  -h, --help               Print help\n" ++
      "  -V, --version            Print version"
  | versionText => "ajc 0.1.0"
  | missingCommand => "error: a command is required"
  | unknownCommand => "error: unrecognized command"
  | unknownArgument => "error: unexpected argument"
  | missingValue => "error: an option needs a value"
  | unexpectedValue => "error: an option has no value"
  | repeated => "error: an option cannot be used more than once"

/-- Whether the user asked for what is told, so that the program has not failed. -/
def UsageError.isAsked : UsageError → Bool
  | help | versionText => true
  | _ => false

/-! ## Options -/

/-- Where arguments stand: before the word of a command, or after it. -/
inductive Level where
  | top
  | version
  | resetStorage
  | stamp
  | models
deriving DecidableEq

/-- The level after the word of a command. -/
def Level.ofWord? : String → Option Level
  | "version" => some version
  | "reset-storage" => some resetStorage
  | "stamp" => some stamp
  | "models" => some models
  | _ => none

/-- The options of all levels. -/
inductive Flag where
  | storage
  | verbose
  | debug
  | help
  | version
  | noinput
deriving DecidableEq

/-- The option of a name. -/
def Flag.ofName? (level : Level) : String → Option Flag
  | "storage" => some storage
  | "verbose" => some verbose
  | "debug" => some debug
  | "help" => some help
  | "version" => if level = .top then some version else none
  | "noinput" => if level = .resetStorage then some noinput else none
  | _ => none

/-- The option of a letter. -/
def Flag.ofLetter? (level : Level) : Char → Option Flag
  | 's' => some storage
  | 'v' => some verbose
  | 'h' => some help
  | 'V' => if level = .top then some version else none
  | _ => none

/-- How far the last storage option of a level has come. -/
inductive StorageOption where
  /-- It is taken over, or there is none. -/
  | settled
  /-- Its value is still to come. -/
  | awaited
  /-- Its value was an argument of its own. -/
  | complete (value : String)
deriving DecidableEq

/-- What was given on one level. -/
structure Given where
  storage : Option String := none
  /-- How often verbosity was asked for. -/
  verbose : Nat := 0
  debug : Bool := false
  noinput : Bool := false
  /-- The operand. -/
  operand : Option String := none
  /-- The storage option that was not taken over yet.  It waits until the argument after it is understood, so
  that the user is told first what is wrong with that argument. -/
  pending : StorageOption := .settled
deriving DecidableEq

namespace Given

/-- What was given, with a storage, which can be named once. -/
def withStorage (given : Given) (value : String) : Except UsageError Given :=
  match given.storage with
  | some _ => .error .repeated
  | none => .ok { given with storage := some value }

/-- Takes over the storage option that waits for it. -/
def settle (given : Given) : Except UsageError Given :=
  match given.pending with
  | .settled => .ok given
  | .awaited => .error .missingValue
  | .complete value => { given with pending := .settled }.withStorage value

/-- What was given, with an option that has no value. -/
def withFlag (given : Given) : Flag → Except UsageError Given
  | .storage => .error .missingValue
  | .verbose => .ok { given with verbose := given.verbose + 1 }
  | .debug => if given.debug then .error .repeated else .ok { given with debug := true }
  | .help => .error .help
  | .version => .error .versionText
  | .noinput => if given.noinput then .error .repeated else .ok { given with noinput := true }

/-- What was given, with an operand, which only one command has. -/
def withOperand (given : Given) (level : Level) (word : String) : Except UsageError Given :=
  if level = .models ∧ given.operand = none then do
    return { ← given.settle with operand := some word }
  else .error .unknownArgument

/-- What was given, with a word: the value of the option before it, or an operand. -/
def withWord (given : Given) (level : Level) (word : String) : Except UsageError Given :=
  if given.pending = .awaited then .ok { given with pending := .complete word }
  else given.withOperand level word

end Given

/-! ## Single arguments -/

/-- The forms of an argument. -/
inductive Argument where
  | word
  /-- The mark after which there are no options. -/
  | escape
  /-- An option by its name, with the value written to it. -/
  | named (name : String) (value : Option String)
  /-- Options by their letters. -/
  | letters (letters : List Char)

/-- The value of an option that is written after an equals sign. -/
def splitValue (option : List Char) : String × Option String :=
  let name := option.takeWhile (· != '=')
  match option.dropWhile (· != '=') with
  | _ :: value => (String.ofList name, some (String.ofList value))
  | [] => (String.ofList name, none)

/-- The form of an argument. -/
def Argument.ofText (text : String) : Argument :=
  match text.toList with
  | ['-', '-'] => escape
  | '-' :: '-' :: option =>
      let (name, value) := splitValue option
      named name value
  | '-' :: first :: rest => letters (first :: rest)
  | _ => word

/-- What follows the letter of an option that has a value: the value, with or without an equals sign. -/
def attachedValue : List Char → String
  | '=' :: rest => String.ofList rest
  | rest => String.ofList rest

/-- Reads letters. -/
def readLetters (level : Level) (given : Given) : List Char → Except UsageError Given
  | [] => .ok given
  | letter :: rest =>
      match Flag.ofLetter? level letter with
      | none => .error .unknownArgument
      | some .storage => do
          let given ← given.settle
          if rest.isEmpty then return { given with pending := .awaited }
          given.withStorage (attachedValue rest)
      | some flag => do readLetters level (← (← given.settle).withFlag flag) rest

/-- Reads a named option. -/
def readNamed (level : Level) (given : Given) (name : String) (value : Option String) :
    Except UsageError Given :=
  match Flag.ofName? level name, value with
  | none, _ => .error .unknownArgument
  | some .storage, some value => do (← given.settle).withStorage value
  | some .storage, none => do return { ← given.settle with pending := .awaited }
  | some _, some _ => .error .unexpectedValue
  | some flag, none => do (← given.settle).withFlag flag

/-! ## Help -/

/-- What the words after a request for help lead to. -/
def helpOn : List String → UsageError
  | [] => .help
  | [word] => if word = "help" ∨ (Level.ofWord? word).isSome then .help else .unknownCommand
  | _ => .unknownCommand

/-! ## All arguments -/

/-- Reads the arguments of a command; `onlyWords` tells that there are no options any more. -/
def readCommand (level : Level) (given : Given) (onlyWords : Bool) :
    List String → Except UsageError Given
  | [] => given.settle
  | text :: rest =>
      if onlyWords then do readCommand level (← given.withOperand level text) true rest
      else
        match Argument.ofText text with
        | .word => do readCommand level (← given.withWord level text) false rest
        | .escape => readCommand level given true rest
        | .named name value => do readCommand level (← readNamed level given name value) false rest
        | .letters letters => do readCommand level (← readLetters level given letters) false rest

/-- What was given before the word of a command and, if there is one, after it. -/
abbrev Given.Both : Type := Given × Option (Level × Given)

/-- Reads a word before which no command was named. -/
def readWord (given : Given) (text : String) (rest : List String) : Except UsageError Given.Both :=
  if text = "help" then .error (helpOn rest)
  else
    match Level.ofWord? text with
    | some level => do
        -- What stands before the word is settled last.
        let after ← readCommand level {} false rest
        return (← given.settle, some (level, after))
    | none => .error .unknownCommand

/-- Reads all arguments. -/
def readTop (given : Given) : List String → Except UsageError Given.Both
  | [] => do return (← given.settle, none)
  | text :: rest =>
      match Argument.ofText text with
      | .word =>
          if given.pending = .awaited then readTop { given with pending := .complete text } rest
          else readWord given text rest
      | .escape =>
          match rest with
          | [] => do return (← given.settle, none)
          | word :: _ =>
              if word = "help" ∨ (Level.ofWord? word).isSome then .error .unknownArgument
              else .error .unknownCommand
      | .named name value => do readTop (← readNamed .top given name value) rest
      | .letters letters => do readTop (← readLetters .top given letters) rest

/-- The command of a level; before the word of a command there is none. -/
def Level.command? (given : Given) : Level → Option Command
  | top => none
  | version => some .version
  | resetStorage => some (.resetStorage given.noinput)
  | stamp => some .stamp
  | models => some (.models given.operand)

/-- The settings that were given; `fallback` is the storage of the environment. -/
def combine (fallback : Option String) (before after : Given) : RunSettings :=
  let storage := (after.storage.or before.storage).or fallback
  let verbosity := if after.verbose = 0 then before.verbose else after.verbose
  let settings : RunSettings :=
    { storage := storage.getD defaultStorage, debug := before.debug || after.debug }
  settings.withVerbosity verbosity

/-- The settings and the command that arguments give. -/
def parseArguments (fallback : Option String) (arguments : List String) :
    Except UsageError (RunSettings × Command) := do
  let (before, named) ← readTop {} arguments
  match named.bind fun named => (named.1.command? named.2).map (·, named.2) with
  | some (command, after) => return (combine fallback before after, command)
  | none => if before = {} ∧ fallback = none then throw .nothingGiven else throw .missingCommand

end RecordStore
