import RecordStore.Codec.Reader
import RecordStore.Codec.Tag

/-!
# Decoding of values

The inverse of the encoding, and two ways to look at encoded data without decoding it all: skipping a
value, and finding one column of a row.

Decoding accepts more than encoding writes: any byte but zero as true, ignored bits in a decimal, and
mappings with unsorted or repeated keys, of which the last wins.

The depth of nesting bounds the recursion; since a container takes at least five bytes before its first
item, the length of the data bounds the depth.
-/

namespace RecordStore

namespace Reader

/-- The tag of a value. -/
def tag : Reader Tag := fun data =>
  match data with
  | [] => .error .emptyValue
  | byte :: rest =>
      match Tag.ofByte? byte with
      | some tag => .ok (tag, rest)
      | none => .error (.unknownTag byte)

/-- A text after its 32-bit length. -/
def text : Reader String := do
  let length ← size .textLength
  let front ← bytes length
  match bytesText? front with
  | some text => return text
  | none => fail .malformedText

/-- A byte string after its 32-bit length. -/
def blob : Reader Bytes := do
  let length ← size .bytesLength
  bytes length

/-- A signed 64-bit number. -/
def int64 : Reader Int64 := do
  let n ← number 8
  return (UInt64.ofNat n).toInt64

/-- A decimal, as flags and mantissa. -/
def decimal : Reader Decimal := do
  let flags ← number 4
  let mantissa ← number 12
  return Decimal.ofFlags flags (mantissa % 79228162514264337593543950336)
    (Nat.mod_lt mantissa (by decide))

/-- A date, as its day number. -/
def date : Reader Date := do
  let n ← number 4
  let day := (UInt32.ofNat n).toInt32.toInt
  match Date.ofDay? day with
  | some date => return date
  | none => fail (.invalidDate day)

/-- A date with time, as seconds since 1970 and nanoseconds. -/
def dateTime : Reader DateTime := do
  let seconds ← int64
  let nanos ← number 4
  match DateTime.ofUnix? seconds.toInt nanos with
  | some t => return t
  | none => fail (.invalidDateTime seconds.toInt)

/-- A time of day, as seconds since midnight and nanoseconds. -/
def time : Reader TimeOfDay := do
  let seconds ← number 4
  let nanos ← number 4
  match TimeOfDay.ofParts? seconds nanos with
  | some t => return t
  | none => fail (.invalidTime seconds)

/-- A value nested at most as deep as given. -/
def value : (depth : Nat) → Reader Value
  | 0 => fail .unexpectedEnd
  | depth + 1 => do
      match ← tag with
      | .null => return .null
      | .integer => return .integer (← int64)
      | .float => return .float ⟨UInt64.ofNat (← number 8)⟩
      | .boolean => return .boolean ((← number 1) != 0)
      | .text => return .text (← text)
      | .bytes => return .bytes (← blob)
      | .decimal => return .decimal (← decimal)
      | .date => return .date (← date)
      | .dateTime => return .dateTime (← dateTime)
      | .time => return .time (← time)
      | .list => return .list (← many (value depth) (← size .sequenceLength))
      | .mapping =>
          let count ← size .mappingLength
          let entries ← many (do return (← name, ← value depth)) count
          return .mappingOf entries
      | .tuple => return .tuple (← many (value depth) (← size .sequenceLength))
      | .set => return .set (← many (value depth) (← size .sequenceLength))
      | .frozenSet => return .frozenSet (← many (value depth) (← size .sequenceLength))

/-- Passes over a number of bytes of a value. -/
def skipBytes (count : Nat) : Reader Unit := do
  let _ ← bytes count (.tooShort .value)
  return ()

/-- Passes over a value nested at most as deep as given.  Texts and scalars are not looked into. -/
def skipValue : (depth : Nat) → Reader Unit
  | 0 => fail .unexpectedEnd
  | depth + 1 => do
      match ← tag with
      | .null => return ()
      | .boolean => skipBytes 1
      | .date => skipBytes 4
      | .integer | .float | .time => skipBytes 8
      | .dateTime => skipBytes 12
      | .decimal => skipBytes 16
      | .text | .bytes => skipBytes (← size .textOrBytesLength)
      | .list | .tuple | .set | .frozenSet =>
          skipMany (skipValue depth) (← size .sequenceLength)
      | .mapping =>
          let count ← size .mappingLength
          skipMany (do let _ ← name; skipValue depth) count

/-- The columns of a row. -/
def row (depth : Nat) : Reader (List (String × Value)) := do
  let count ← size .columnCount
  many (do return (← name, ← value depth)) count

/-- The value of the first of a number of columns that has a name; the columns before it are passed
over. -/
def column (target : String) (depth : Nat) : (count : Nat) → Reader (Option Value)
  | 0 => return none
  | count + 1 => do
      if (← name) = target then return some (← value depth)
      else
        skipValue depth
        column target depth count

end Reader

/-! ## Whole byte strings -/

/-- The value at the front of a byte string, and the rest. -/
def decodeFront (data : Bytes) : Except DataFault (Value × Bytes) :=
  Reader.value (data.length + 1) data

/-- The value of a byte string that holds nothing else. -/
def decode (data : Bytes) : Except DataFault Value := do
  let (value, rest) ← decodeFront data
  if rest.length = 0 then return value else .error (.trailing rest.length)

/-- The number of bytes of the value at the front of a byte string. -/
def skip (data : Bytes) : Except DataFault Nat := do
  let ((), rest) ← Reader.skipValue (data.length + 1) data
  return data.length - rest.length

/-- The columns of a row; bytes after the last column are ignored. -/
def decodeRow (data : Bytes) : Except DataFault (List (String × Value)) := do
  let (columns, _) ← Reader.row (data.length + 1) data
  return columns

/-- The value of the first column of a row that has a name. -/
def getColumn (data : Bytes) (column : String) : Except DataFault (Option Value) := do
  let (count, rest) ← Reader.size .columnCount data
  let (value, _) ← Reader.column column (data.length + 1) count rest
  return value

end RecordStore
