import RecordStore.Schema.Kind

/-!
# Errors

Every way in which an operation can fail, as causes with the names and numbers that belong to them.  The
wording of all causes is in the functions `message` of their types.

`Error` has one constructor per kind of failure; kinds that cover several situations have a type of their
own (`DataFault`, `ValueFault`, `Unsupported`, `Violation`, `AddressFault`), each of which also admits a
reason stated in free words.
-/

namespace RecordStore

/-! ## Declarations -/

/-- What can be wrong with a field of a declaration. -/
inductive FieldError where
  /-- The declared kind is none of the known kinds. -/
  | invalidType (model field kind : String)
  | emptyName (model : String)
  /-- The name starts with the prefix of generated attributes. -/
  | reservedPrefix (model field : String)
  /-- Only abstract fields can be redefined. -/
  | redefinition (model field : String)
  /-- A concrete model still has an abstract field. -/
  | unresolvedAbstract (model field : String)
  /-- A concrete model lacks one of its names. -/
  | missingAttribute (model attr : String)
deriving DecidableEq

/-- The wording of a field error. -/
def FieldError.message : FieldError → String
  | invalidType model field kind =>
      "invalid type '" ++ kind ++ "' of '" ++ model ++ "." ++ field ++ "'"
  | emptyName model => "field name can't be empty in model '" ++ model ++ "'"
  | reservedPrefix model field =>
      "field can't start with an underscore: '" ++ model ++ "." ++ field ++ "'"
  | redefinition model field => "'" ++ model ++ "' can't redefine field '" ++ field ++ "'"
  | unresolvedAbstract model field =>
      "field '" ++ model ++ "." ++ field ++ "' must be redefined if the model is concrete"
  | missingAttribute model attr =>
      "model '" ++ model ++ "' must define the attribute '" ++ attr ++ "'"

/-! ## Data -/

/-- Parts of encoded data that announce a size. -/
inductive DataPart where
  | columnCount
  | textLength
  | bytesLength
  | textOrBytesLength
  | sequenceLength
  | mappingLength
  | value
deriving DecidableEq

/-- The name of a part of encoded data. -/
def DataPart.label : DataPart → String
  | columnCount => "column count"
  | textLength => "text length"
  | bytesLength => "bytes length"
  | textOrBytesLength => "text/bytes length"
  | sequenceLength => "sequence length"
  | mappingLength => "mapping length"
  | value => "value"

/-- What can be wrong with data that is read or written. -/
inductive DataFault where
  /-- There is no byte where a value should start. -/
  | emptyValue
  | unknownTag (tag : UInt8)
  | unexpectedEnd
  | tooShort (part : DataPart)
  | malformedText
  | malformedName
  | invalidDate (day : Int)
  | invalidDateTime (seconds : Int)
  | invalidTime (seconds : Nat)
  /-- A value is followed by further bytes. -/
  | trailing (count : Nat)
  | valueTooLong
  | nameTooLong
  | malformedRowKey
  | noPrimaryKey (model : String)
  | unsavedRecord (model : String)
  | negativeRowId (id : Int64)
  | rowIdOutOfRange (id : UInt64)
  | sequenceExhausted (sequence : String)
  | stated (reason : String)
deriving DecidableEq

/-- The wording of a data fault. -/
def DataFault.message : DataFault → String
  | emptyValue => "Empty data for value"
  | unknownTag tag => "Unknown value tag: " ++ natText tag.toNat
  | unexpectedEnd => "Unexpected end of data"
  | tooShort part => "Data too short for " ++ part.label
  | malformedText => "Invalid UTF-8 in text"
  | malformedName => "Invalid UTF-8 in name"
  | invalidDate day => "Invalid date: " ++ intText day
  | invalidDateTime seconds => "Invalid date-time: " ++ intText seconds ++ "s"
  | invalidTime seconds => "Invalid time: " ++ natText seconds ++ "s"
  | trailing count => "Trailing " ++ natText count ++ " bytes after opaque value"
  | valueTooLong => "Value too long"
  | nameTooLong => "Column name too long"
  | malformedRowKey => "Malformed row key"
  | noPrimaryKey model => "model '" ++ model ++ "' has no primary key"
  | unsavedRecord model => model ++ " has no primary key yet"
  | negativeRowId id => "invalid row id " ++ intText id.toInt
  | rowIdOutOfRange id => "row id " ++ natText id.toNat ++ " out of range"
  | sequenceExhausted sequence => "sequence '" ++ sequence ++ "' exhausted"
  | stated reason => reason

/-! ## Values and references -/

/-- Why the current value of an attribute, or a handle, does not support an operation. -/
inductive ValueFault where
  /-- Primary keys are not assigned by hand. -/
  | assignedKey (attr : String)
  | typeMismatch (model attr found expected : String)
  | notMutable (model attr : String)
  | indexOutOfRange (index length : Nat)
  | sessionKey (found : String)
  | unknownHandle (index : Nat)
  | wrongTarget (field expected found : String)
  | notAKey (column found : String)
  | deletedTarget (column : String)
  | stated (reason : String)
deriving DecidableEq

/-- The wording of a value fault. -/
def ValueFault.message : ValueFault → String
  | assignedKey attr => "primary key '" ++ attr ++ "' is assigned by its sequence"
  | typeMismatch model attr found expected =>
      "'" ++ model ++ "." ++ attr ++ "' holds " ++ found ++ ", not " ++ expected
  | notMutable model attr =>
      "'" ++ model ++ "." ++ attr ++ "' is not a mutable container column"
  | indexOutOfRange index length =>
      "index " ++ natText index ++ " out of range for length " ++ natText length
  | sessionKey found => "session lookup expects a code or an id, found " ++ found
  | unknownHandle index => "unknown record handle " ++ natText index
  | wrongTarget field expected found =>
      "'" ++ field ++ "' expects a " ++ expected ++ " record, found " ++ found
  | notAKey column found => "'" ++ column ++ "' holds " ++ found ++ ", not a primary key"
  | deletedTarget column => "record referenced by '" ++ column ++ "' was deleted"
  | stated reason => reason

/-! ## Other causes -/

/-- Why a model cannot be compiled or registered. -/
inductive Unsupported where
  | compileAbstract (model : String)
  | abstractField (model field : String)
  | registerAbstract (model : String)
  | alreadyPhysical (model : String)
  | stated (reason : String)
deriving DecidableEq

/-- The wording of an unsupported operation. -/
def Unsupported.message : Unsupported → String
  | compileAbstract model => "can't compile abstract model '" ++ model ++ "'"
  | abstractField model field => "field '" ++ model ++ "." ++ field ++ "' is abstract"
  | registerAbstract model => "can't register abstract model '" ++ model ++ "'"
  | alreadyPhysical model => "'" ++ model ++ "' is already a physical model"
  | stated reason => reason

/-- Why a column rejects a written value. -/
inductive Violation where
  | notContainer (expected : ContainerKind) (found : String)
  | notNull
  | tooLong (limit : UInt32)
  | wrongType (expected : StorageKind) (found : String)
  | unique
  | foreignKey
  | stated (reason : String)
deriving DecidableEq

/-- The wording of a violation. -/
def Violation.message : Violation → String
  | notContainer expected found =>
      "must be '" ++ expected.token ++ "' type, found " ++ found
  | notNull => "NOT NULL constraint failed"
  | tooLong limit => "value too long for VARCHAR(" ++ natText limit.toNat ++ ")"
  | wrongType expected found => "expected " ++ expected.toText ++ ", found " ++ found
  | unique => "UNIQUE constraint failed"
  | foreignKey => "FOREIGN KEY constraint failed"
  | stated reason => reason

/-- Why a text is no storage address. -/
inductive AddressFault where
  | missingSeparator
  | missingScheme
  | unsupportedScheme
  | stated (reason : String)
deriving DecidableEq

/-- The wording of an address fault. -/
def AddressFault.message : AddressFault → String
  | missingSeparator => "missing '://' separator"
  | missingScheme => "missing scheme"
  | unsupportedScheme => "unsupported scheme"
  | stated reason => reason

/-! ## Errors -/

/-- A failure of an operation. -/
inductive Error where
  | field (error : FieldError)
  | duplicateRegistration (model : String)
  /-- Another registered model owns the table. -/
  | duplicateTable (model table owner : String)
  | unsupportedOperation (cause : Unsupported)
  /-- A reference names a model that is not registered. -/
  | lookup (model field target : String)
  | unknownModel (model : String)
  | storageConstraint (table column : String) (violation : Violation)
  | storage (reason : String)
  | io (reason : String)
  | serialization (reason : String)
  | deserialization (reason : String)
  | invalidData (fault : DataFault)
  | invalidAddress (address : String) (fault : AddressFault)
  /-- The storage was not created yet, or was dropped. -/
  | storageUnavailable (address : String)
  /-- Another scope is open. -/
  | scopeBusy (address : String)
  | missingTable (table : String)
  | notFound (model : String)
  | multipleResults (model : String)
  | unknownAttribute (model attr : String)
  | invalidValue (fault : ValueFault)
  | stampExists
  | transaction (reason : String)
deriving DecidableEq

/-- The wording of an error. -/
def Error.message : Error → String
  | field error => "field error: " ++ error.message
  | duplicateRegistration model => "duplicated model '" ++ model ++ "'"
  | duplicateTable model table owner =>
      "table '" ++ table ++ "' of '" ++ model ++ "' is already defined by '" ++ owner ++ "'"
  | unsupportedOperation cause => "unsupported operation: " ++ cause.message
  | lookup model source target =>
      "model '" ++ target ++ "' referenced by '" ++ model ++ "." ++ source ++ "' is not registered"
  | unknownModel model => "unknown model '" ++ model ++ "'"
  | storageConstraint table column violation =>
      "storage constraint violated on '" ++ table ++ "." ++ column ++ "': " ++ violation.message
  | storage reason => "storage error: " ++ reason
  | io reason => "io error: " ++ reason
  | serialization reason => "serialization error: " ++ reason
  | deserialization reason => "deserialization error: " ++ reason
  | invalidData fault => "invalid data: " ++ fault.message
  | invalidAddress address fault =>
      "invalid storage address '" ++ address ++ "': " ++ fault.message
  | storageUnavailable address => "storage '" ++ address ++ "' is not available"
  | scopeBusy address => "storage '" ++ address ++ "' is busy with another unit of work"
  | missingTable table => "no such table '" ++ table ++ "'"
  | notFound model => model ++ " not found"
  | multipleResults model => "multiple " ++ model ++ " rows found where one was expected"
  | unknownAttribute model attr =>
      "'" ++ model ++ "' has no attribute '" ++ attr ++ "'"
  | invalidValue fault => "invalid value: " ++ fault.message
  | stampExists => "storage is already stamped"
  | transaction reason => "transaction error: " ++ reason

/-- Counts a data fault as an error. -/
def Error.ofData {α : Type} : Except DataFault α → Except Error α
  | .ok a => .ok a
  | .error fault => .error (.invalidData fault)

end RecordStore
