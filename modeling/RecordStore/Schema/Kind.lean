import RecordStore.Text.Digits

/-!
# Kinds of columns and fields

Three classifications: the shapes of containers (`ContainerKind`), the physical kinds of columns
(`StorageKind`) and the semantic types a field is declared with (`PrimitiveType`).  Every primitive type
resolves to one storage kind (`PrimitiveType.storageKind`); declarations name primitive types by tokens.
-/

namespace RecordStore

/-! ## Containers -/

/-- Shapes of containers that are stored as encoded blobs. -/
inductive ContainerKind where
  | list
  | mapping
  | tuple
  | set
  | frozenSet
deriving DecidableEq

namespace ContainerKind

/-- Whether values of this shape can be changed in place. -/
def isMutable : ContainerKind → Bool
  | list | mapping | set => true
  | tuple | frozenSet => false

/-- The name of the shape in declarations and messages. -/
def token : ContainerKind → String
  | list => "list"
  | mapping => "mapping"
  | tuple => "tuple"
  | set => "set"
  | frozenSet => "frozen-set"

end ContainerKind

/-! ## Columns -/

/-- Physical kinds of columns. -/
inductive StorageKind where
  /-- An encoded blob that holds any value. -/
  | opaqueBlob
  | bigInteger
  /-- Integers used as primary and foreign keys. -/
  | integer
  | float
  | boolean
  | text
  /-- Text with a maximum number of characters. -/
  | varChar (limit : UInt32)
  | numeric
  | date
  | dateTime
  | time
  /-- An encoded blob that holds containers of one shape. -/
  | container (kind : ContainerKind)
deriving DecidableEq

namespace StorageKind

/-- Whether values are stored as blobs of the opaque encoding. -/
def isEncoded : StorageKind → Bool
  | opaqueBlob | container _ => true
  | _ => false

/-- The container shape that a column of this kind demands. -/
def containerKind? : StorageKind → Option ContainerKind
  | container kind => some kind
  | _ => none

/-- Whether values of a column of this kind can be changed in place. -/
def isMutable : StorageKind → Bool
  | container kind => kind.isMutable
  | _ => false

/-- The name of the kind. -/
def toText : StorageKind → String
  | opaqueBlob => "BLOB"
  | bigInteger => "BIGINT"
  | integer => "INTEGER"
  | float => "FLOAT"
  | boolean => "BOOLEAN"
  | text => "TEXT"
  | varChar limit => "VARCHAR(" ++ natText limit.toNat ++ ")"
  | numeric => "NUMERIC"
  | date => "DATE"
  | dateTime => "DATETIME"
  | time => "TIME"
  | container kind => "BLOB[" ++ kind.token ++ "]"

/-- The kinds without a limit. -/
def unlimited : List StorageKind :=
  [opaqueBlob, bigInteger, integer, float, boolean, text, numeric, date, dateTime, time,
    container .list, container .mapping, container .tuple, container .set, container .frozenSet]

/-- The limit in the name of a kind of bounded texts. -/
def limitOfText? (name : String) : Option UInt32 :=
  let digits := name.toList.filter Char.isDigit
  match (String.ofList digits).toNat? with
  | some n => if (varChar (UInt32.ofNat n)).toText == name then some (UInt32.ofNat n) else none
  | none => none

/-- The kind of a name. -/
def ofText? (name : String) : Option StorageKind :=
  match unlimited.find? fun kind => kind.toText == name with
  | some kind => some kind
  | none => (limitOfText? name).map varChar

end StorageKind

/-! ## Fields -/

/-- Semantic types a field can be declared with. -/
inductive PrimitiveType where
  /-- Any value at all. -/
  | anyValue
  | integer
  | float
  | boolean
  | text
  | list
  | mapping
  | tuple
  | set
  | frozenSet
  | decimal
  | date
  | dateTime
  | time
deriving DecidableEq

namespace PrimitiveType

/-- All primitive types. -/
def all : List PrimitiveType :=
  [anyValue, integer, float, boolean, text, list, mapping, tuple, set, frozenSet, decimal, date,
    dateTime, time]

/-- The name of the type in declarations. -/
def token : PrimitiveType → String
  | anyValue => "opaque-object"
  | integer => "integer"
  | float => "float"
  | boolean => "boolean"
  | text => "text"
  | list => "list"
  | mapping => "mapping"
  | tuple => "tuple"
  | set => "set"
  | frozenSet => "frozen-set"
  | decimal => "decimal"
  | date => "date"
  | dateTime => "date-time"
  | time => "time"

/-- The type with a given token. -/
def ofToken? (token : String) : Option PrimitiveType :=
  all.find? fun type => type.token == token

/-- The kind of column that stores the type. -/
def storageKind : PrimitiveType → StorageKind
  | anyValue => .opaqueBlob
  | integer => .bigInteger
  | float => .float
  | boolean => .boolean
  | text => .text
  | list => .container .list
  | mapping => .container .mapping
  | tuple => .container .tuple
  | set => .container .set
  | frozenSet => .container .frozenSet
  | decimal => .numeric
  | date => .date
  | dateTime => .dateTime
  | time => .time

/-- Whether values of the type can be changed in place. -/
def isMutable (type : PrimitiveType) : Bool :=
  type.storageKind.isMutable

/-- Tokens tell the types apart. -/
theorem ofToken?_token (type : PrimitiveType) : ofToken? type.token = some type := by
  cases type <;> decide

end PrimitiveType

end RecordStore
