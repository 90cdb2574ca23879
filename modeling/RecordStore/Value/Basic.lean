import RecordStore.Bytes
import RecordStore.Calendar
import RecordStore.Decimal
import RecordStore.Float64
import RecordStore.Schema.Kind
import RecordStore.SortedMap

/-!
# Values

The values that attributes of records hold: nothing, scalars, and containers nested to any depth.

Mappings are lists of entries in key order.  Sets are lists of members in insertion order; the functions
that build them drop repeated members, but the type itself admits repetition, because a stored set is
read back as it was written.
-/

namespace RecordStore

/-- A value of an attribute. -/
inductive Value where
  | null
  | integer (n : Int64)
  | float (x : Float64)
  | boolean (b : Bool)
  | text (s : String)
  | bytes (b : Bytes)
  | decimal (d : Decimal)
  | date (d : Date)
  | dateTime (t : DateTime)
  | time (t : TimeOfDay)
  | list (items : List Value)
  | mapping (entries : List (String × Value))
  | tuple (items : List Value)
  | set (members : List Value)
  | frozenSet (members : List Value)
deriving Inhabited

namespace Value

/-! ## Classification -/

/-- Whether this is the absent value. -/
def isNull : Value → Bool
  | null => true
  | _ => false

/-- The shape of a container. -/
def containerKind? : Value → Option ContainerKind
  | list _ => some .list
  | mapping _ => some .mapping
  | tuple _ => some .tuple
  | set _ => some .set
  | frozenSet _ => some .frozenSet
  | _ => none

/-- The name of the type of a value, as messages use it. -/
def typeName : Value → String
  | null => "null"
  | integer _ => "integer"
  | float _ => "float"
  | boolean _ => "boolean"
  | text _ => "text"
  | bytes _ => "bytes"
  | decimal _ => "decimal"
  | date _ => "date"
  | dateTime _ => "date-time"
  | time _ => "time"
  | list _ => "list"
  | mapping _ => "mapping"
  | tuple _ => "tuple"
  | set _ => "set"
  | frozenSet _ => "frozen-set"

/-! ## Views -/

/-- The integer. -/
def asInteger? : Value → Option Int64
  | integer n => some n
  | _ => none

/-- The floating-point number; integers widen. -/
def asFloat? : Value → Option Float64
  | float x => some x
  | integer n => some (.ofInt64 n)
  | _ => none

/-- The boolean. -/
def asBoolean? : Value → Option Bool
  | boolean b => some b
  | _ => none

/-- The text. -/
def asText? : Value → Option String
  | text s => some s
  | _ => none

/-- The byte string. -/
def asBytes? : Value → Option Bytes
  | bytes b => some b
  | _ => none

/-- The decimal. -/
def asDecimal? : Value → Option Decimal
  | decimal d => some d
  | _ => none

/-- The date. -/
def asDate? : Value → Option Date
  | date d => some d
  | _ => none

/-- The date with time. -/
def asDateTime? : Value → Option DateTime
  | dateTime t => some t
  | _ => none

/-- The time of day. -/
def asTime? : Value → Option TimeOfDay
  | time t => some t
  | _ => none

/-- The items of a list. -/
def asList? : Value → Option (List Value)
  | list items => some items
  | _ => none

/-- The items of a tuple. -/
def asTuple? : Value → Option (List Value)
  | tuple items => some items
  | _ => none

/-- The members of a set of either kind. -/
def asSet? : Value → Option (List Value)
  | set members => some members
  | frozenSet members => some members
  | _ => none

/-- The entries of a mapping. -/
def asMapping? : Value → Option (List (String × Value))
  | mapping entries => some entries
  | _ => none

/-- The mapping of a list of pairs; the last pair of a key wins. -/
def mappingOf (pairs : List (String × Value)) : Value :=
  mapping (Entries.ofList pairs)

end Value

end RecordStore
