import RecordStore.Bytes
import RecordStore.Calendar
import RecordStore.Error

/-!
# Stored rows

A stored row is the encoded data of a row with the times of its insertion and of its last write.

As bytes it is the data, zeros up to a multiple of eight, and a trailer: the distance from the trailer
back to the data, the length of the data, and the two times, all with the low byte first.  Reading checks
that the data lies before the trailer.
-/

namespace RecordStore

/-- The encoded data of a row with its times, in microseconds since 1970. -/
structure StoredRow where
  data : Bytes
  createdAt : UInt64
  updatedAt : UInt64
deriving DecidableEq

namespace StoredRow

/-- A row inserted now. -/
def new (data : Bytes) (now : DateTime) : StoredRow where
  data
  createdAt := now.unixMicros
  updatedAt := now.unixMicros

/-- The row with new data, written now. -/
def updated (row : StoredRow) (data : Bytes) (now : DateTime) : StoredRow :=
  { row with data, updatedAt := now.unixMicros }

/-! ## Bytes -/

/-- The number of bytes of a trailer. -/
def trailerSize : Nat := 24

/-- The place of the trailer after data of a given length. -/
def trailerStart (length : Nat) : Nat :=
  (length + 7) / 8 * 8

/-- The bytes of a row. -/
def toBytes (row : StoredRow) : Bytes :=
  let start := trailerStart row.data.length
  row.data ++ List.replicate (start - row.data.length) 0 ++
    littleEndian 4 (4294967296 - start) ++ littleEndian 4 row.data.length ++
    littleEndian 8 row.createdAt.toNat ++ littleEndian 8 row.updatedAt.toNat

/-- The row of given bytes. -/
def ofBytes? (bytes : Bytes) : Option StoredRow :=
  let start := bytes.length - trailerSize
  let trailer := bytes.drop start
  -- The distance is kept as its negative; a distance of zero has no negative of its own.
  let back := 4294967296 - ofLittleEndian (trailer.take 4)
  let distance := if back = 4294967296 then 0 else back
  let length := ofLittleEndian ((trailer.drop 4).take 4)
  if trailerSize ≤ bytes.length ∧ start % 8 = 0 ∧ distance ≤ start ∧ length ≤ distance then
    some {
      data := (bytes.drop (start - distance)).take length
      createdAt := UInt64.ofNat (ofLittleEndian ((trailer.drop 8).take 8))
      updatedAt := UInt64.ofNat (ofLittleEndian (trailer.drop 16)) }
  else none

/-- The row of given bytes; bytes of no row are an error. -/
def ofBytes (bytes : Bytes) : Except Error StoredRow :=
  match ofBytes? bytes with
  | some row => .ok row
  | none => .error (.deserialization "malformed row")

end StoredRow

end RecordStore
