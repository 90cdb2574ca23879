import RecordStore.Codec.Tag
import RecordStore.Error

/-!
# Encoding of values

A value is encoded as its tag followed by its data: numbers in fixed widths with the low byte first,
texts and byte strings after a 32-bit length, sequences after a 32-bit count, mappings after a 32-bit count
with each value after its key, and keys after a 16-bit length.

Encoding fails exactly when something is longer than its length field can say.
-/

namespace RecordStore

/-- A 32-bit length. -/
def encodeLength (length : Nat) : Except DataFault Bytes :=
  if length < 4294967296 then .ok (littleEndian 4 length) else .error .valueTooLong

/-- A byte string after its 32-bit length. -/
def encodeBytes (bytes : Bytes) : Except DataFault Bytes := do
  let length ← encodeLength bytes.length
  return length ++ bytes

/-- A name after its 16-bit length. -/
def encodeName (name : String) : Except DataFault Bytes :=
  let bytes := textBytes name
  if bytes.length < 65536 then .ok (littleEndian 2 bytes.length ++ bytes) else .error .nameTooLong

/-- The sixteen bytes of a decimal: flags, then the mantissa. -/
def encodeDecimal (d : Decimal) : Bytes :=
  littleEndian 4 d.flags ++ littleEndian 12 d.mantissa

namespace Value

mutual

/-- The bytes of a value. -/
def encode : Value → Except DataFault Bytes
  | null => .ok [Tag.null.byte]
  | integer n => .ok (Tag.integer.byte :: littleEndian 8 n.toUInt64.toNat)
  | float x => .ok (Tag.float.byte :: littleEndian 8 x.bits.toNat)
  | boolean b => .ok [Tag.boolean.byte, if b then 1 else 0]
  | text s => do
      let data ← encodeBytes (textBytes s)
      return Tag.text.byte :: data
  | bytes b => do
      let data ← encodeBytes b
      return Tag.bytes.byte :: data
  | decimal d => .ok (Tag.decimal.byte :: encodeDecimal d)
  | date d => .ok (Tag.date.byte :: littleEndian 4 (Int32.ofInt d.day).toUInt32.toNat)
  | dateTime t =>
      .ok (Tag.dateTime.byte ::
        (littleEndian 8 (Int64.ofInt t.unixSeconds).toUInt64.toNat ++ littleEndian 4 t.time.nanos))
  | time t => .ok (Tag.time.byte :: (littleEndian 4 t.seconds ++ littleEndian 4 t.nanos))
  | list items => do
      let count ← encodeLength items.length
      let data ← encodeItems items
      return Tag.list.byte :: (count ++ data)
  | mapping entries => do
      let count ← encodeLength entries.length
      let data ← encodeEntries entries
      return Tag.mapping.byte :: (count ++ data)
  | tuple items => do
      let count ← encodeLength items.length
      let data ← encodeItems items
      return Tag.tuple.byte :: (count ++ data)
  | set members => do
      let count ← encodeLength members.length
      let data ← encodeItems members
      return Tag.set.byte :: (count ++ data)
  | frozenSet members => do
      let count ← encodeLength members.length
      let data ← encodeItems members
      return Tag.frozenSet.byte :: (count ++ data)
termination_by structural value => value

/-- The bytes of the items of a sequence. -/
def encodeItems : List Value → Except DataFault Bytes
  | [] => .ok []
  | x :: xs => do
      let first ← encode x
      let rest ← encodeItems xs
      return first ++ rest
termination_by structural items => items

/-- The bytes of the entries of a mapping. -/
def encodeEntries : List (String × Value) → Except DataFault Bytes
  | [] => .ok []
  | (k, x) :: xs => do
      let name ← encodeName k
      let first ← encode x
      let rest ← encodeEntries xs
      return name ++ (first ++ rest)
termination_by structural entries => entries

end

end Value

/-- The bytes of a list of named columns: their number, then each value after its name.  The number
is written in 32 bits. -/
def encodeRow (columns : List (String × Value)) : Except DataFault Bytes := do
  let data ← Value.encodeEntries columns
  return littleEndian 4 columns.length ++ data

end RecordStore
