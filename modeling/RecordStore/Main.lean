import RecordStore.CommandLine.Console
import Std.Time.DateTime.Timestamp

/-!
# The program

Takes arguments, environment and clock, runs one command and shows what it has written.  Storages live in
memory and end with the program.

Commands are functions of all the input they get, so a command that waits for input is run again with each
further line; what it writes only grows, and only the new part is shown.
-/

namespace RecordStore

namespace Program

/-- The environment variable that names a storage. -/
def storageVariable : String := "AJIACO_STORAGE"

/-- The current time. -/
def currentTime : IO DateTime := do
  let nanos := (← Std.Time.Timestamp.now).toNanosecondsSinceUnixEpoch.val
  return (DateTime.ofUnix? (nanos / 1000000000) (nanos % 1000000000).toNat).getD default

/-- The machine that the program runs on. -/
def currentMachine : IO Machine := do
  let seed := BitVec.ofNat 128 (ofLittleEndian (← IO.getRandomBytes 16).toList)
  let time ← currentTime
  return {
    host := {
      platform := (← IO.getEnv "OSTYPE").getD "linux"
      architecture := (← IO.getEnv "HOSTTYPE").getD "x86_64"
      timeZone := "+00:00" }
    supply := {
      identifier := fun n => seed + BitVec.ofNat 128 (n * 226854911280625642308916404954512140971)
      instant := fun _ => time } }

/-- Runs a command on the input read so far, of which `shown` characters of output are on the screen
already; tells whether it succeeds. -/
partial def interact (machine : Machine) (storage : String) (command : Command) (input : String)
    (shown : Nat) : IO UInt32 := do
  let (output, result, _) := machine.execute storage command input
  let stdout ← IO.getStdout
  stdout.putStr (String.ofList (output.toList.drop shown))
  stdout.flush
  match result with
  | .error error =>
      IO.eprintln ("Error: " ++ error.message)
      return 1
  | .ok () =>
      if !command.awaits (linesOf input) then return 0
      let line ← (← IO.getStdin).getLine
      if line.isEmpty then return 0
      interact machine storage command (input ++ line) output.length

/-- Tells why arguments give no command. -/
def explain (error : UsageError) : IO UInt32 := do
  if error.isAsked then
    IO.println error.message
    return 0
  IO.eprintln error.message
  return 2

end Program

end RecordStore

open RecordStore Program in
/-- Runs the command that the arguments give. -/
def main (args : List String) : IO UInt32 := do
  match parseArguments (← IO.getEnv storageVariable) args with
  | .error error => explain error
  | .ok (settings, command) => interact (← currentMachine) settings.storage command "" 0
