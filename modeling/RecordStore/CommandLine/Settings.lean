/-!
# Settings of the command line

Which storage a command works on, and how much is logged meanwhile.
-/

namespace RecordStore

/-- The storage of commands that name none. -/
def defaultStorage : String := "sled://./ajiaco_data"

/-- The highest verbosity that makes a difference. -/
def maxVerbosity : Nat := 4

/-- The levels of the log, from the quietest. -/
def logLevels : List String := ["error", "warn", "info", "debug", "trace"]

/-- Settings of one run of the program. -/
structure RunSettings where
  /-- The address of the storage. -/
  storage : String := defaultStorage
  verbosity : Nat := 0
  /-- Whether at least debugging messages are logged. -/
  debug : Bool := false
deriving DecidableEq

namespace RunSettings

/-- Settings with a verbosity, which is capped. -/
def withVerbosity (settings : RunSettings) (verbosity : Nat) : RunSettings :=
  { settings with verbosity := min verbosity maxVerbosity }

/-- The level of the log. -/
def logLevel (settings : RunSettings) : String :=
  let level := min settings.verbosity maxVerbosity
  logLevels.getD (if settings.debug then max level 3 else level) "trace"

/-- What is logged of each part of the program. -/
def logFilter (settings : RunSettings) : String :=
  "ajiaco_core=" ++ settings.logLevel ++ ",ajiaco_cli=" ++ settings.logLevel

end RunSettings

end RecordStore
