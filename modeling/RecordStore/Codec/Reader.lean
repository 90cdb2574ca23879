import RecordStore.Bytes
import RecordStore.Error

/-!
# Reading byte strings

A `Reader` takes what it reads from the front of a byte string and leaves the rest, or fails with the
fault of the data.
-/

namespace RecordStore

/-- Something that is read from the front of a byte string. -/
abbrev Reader (α : Type) : Type := StateT Bytes (Except DataFault) α

/-- The first bytes of a byte string and the rest; nothing when there are too few. -/
def splitFront? : (count : Nat) → Bytes → Option (Bytes × Bytes)
  | 0, data => some ([], data)
  | _ + 1, [] => none
  | count + 1, byte :: data =>
      match splitFront? count data with
      | some (front, rest) => some (byte :: front, rest)
      | none => none

theorem splitFront?_eq (count : Nat) (data : Bytes) :
    splitFront? count data =
      if count ≤ data.length then some (data.take count, data.drop count) else none := by
  induction count generalizing data with
  | zero => simp [splitFront?]
  | succ count ih =>
      cases data with
      | nil => simp [splitFront?]
      | cons byte data =>
          by_cases h : count ≤ data.length <;> simp [splitFront?, ih, h]

namespace Reader

/-- A failure. -/
def fail {α : Type} (fault : DataFault) : Reader α :=
  fun _ => .error fault

/-- A number of bytes; the fault is that of a string with too few. -/
def bytes (count : Nat) (fault : DataFault := .unexpectedEnd) : Reader Bytes := fun data =>
  match splitFront? count data with
  | some (front, rest) => .ok (front, rest)
  | none => .error fault

/-- A number in a given width, low byte first. -/
def number (width : Nat) (fault : DataFault := .unexpectedEnd) : Reader Nat := do
  let front ← bytes width fault
  return ofLittleEndian front

/-- A 32-bit size of a part of the data. -/
def size (part : DataPart) : Reader Nat :=
  number 4 (.tooShort part)

/-- A name after its 16-bit length. -/
def name : Reader String := do
  let length ← number 2
  let front ← bytes length
  match bytesText? front with
  | some text => return text
  | none => fail .malformedName

/-- The same thing a number of times. -/
def many {α : Type} (read : Reader α) : (count : Nat) → Reader (List α)
  | 0 => return []
  | count + 1 => do
      let first ← read
      let rest ← many read count
      return first :: rest

/-- The same thing a number of times, forgetting what was read. -/
def skipMany (read : Reader Unit) : (count : Nat) → Reader Unit
  | 0 => return ()
  | count + 1 => do
      read
      skipMany read count

end Reader

end RecordStore
