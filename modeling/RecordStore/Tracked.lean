import RecordStore.Record
import RecordStore.Value.Equality

/-!
# Changing containers in place

A list, mapping or set of a record can be changed in place through a view of it.  The view notes whether
anything was changed, so that putting it back marks the attribute exactly when there is something to
write.  Changes inside the items of a container are not seen by its view.
-/

namespace RecordStore

/-! ## Lists -/

/-- A list of a record while it is changed. -/
structure TrackedList where
  items : List Value
  /-- Whether something was changed. -/
  marked : Bool := false

namespace TrackedList

/-- The error of a place that the list does not have. -/
def outOfRange (list : TrackedList) (index : Nat) : Error :=
  .invalidValue (.indexOutOfRange index list.items.length)

/-- Adds an item at the end. -/
def push (list : TrackedList) (item : Value) : TrackedList where
  items := list.items ++ [item]
  marked := true

/-- Adds items at the end. -/
def extend (list : TrackedList) (items : List Value) : TrackedList where
  items := list.items ++ items
  marked := list.marked || !items.isEmpty

/-- Takes the last item away. -/
def pop (list : TrackedList) : Option Value × TrackedList :=
  match list.items.getLast? with
  | some item => (some item, { items := list.items.dropLast, marked := true })
  | none => (none, list)

/-- Puts an item before the one at a place, or at the end. -/
def insert (list : TrackedList) (index : Nat) (item : Value) : Except Error TrackedList :=
  if index ≤ list.items.length then
    .ok { items := list.items.take index ++ item :: list.items.drop index, marked := true }
  else .error (list.outOfRange index)

/-- Takes the item at a place away. -/
def remove (list : TrackedList) (index : Nat) : Except Error (Value × TrackedList) :=
  match list.items[index]? with
  | some item => .ok (item, { items := list.items.eraseIdx index, marked := true })
  | none => .error (list.outOfRange index)

/-- Replaces the item at a place; an equal item changes nothing worth writing. -/
def set (list : TrackedList) (index : Nat) (item : Value) : Except Error (Value × TrackedList) :=
  match list.items[index]? with
  | some previous =>
      .ok (previous, {
        items := list.items.set index item
        marked := list.marked || !previous.equals item })
  | none => .error (list.outOfRange index)

/-- Keeps only the first items. -/
def truncate (list : TrackedList) (length : Nat) : TrackedList where
  items := list.items.take length
  marked := list.marked || decide (length < list.items.length)

/-- Takes all items away. -/
def clear (list : TrackedList) : TrackedList where
  items := []
  marked := list.marked || !list.items.isEmpty

end TrackedList

/-! ## Mappings -/

/-- A mapping of a record while it is changed. -/
structure TrackedMapping where
  entries : List (String × Value)
  /-- Whether something was changed. -/
  marked : Bool := false

namespace TrackedMapping

/-- The value of a key. -/
def get? (mapping : TrackedMapping) (key : String) : Option Value :=
  Entries.find? key mapping.entries

/-- Whether there was a value before, equal to a new one. -/
def sameValue (previous : Option Value) (value : Value) : Bool :=
  match previous with
  | some old => old.equals value
  | none => false

/-- Stores a value under a key and tells the value it replaces. -/
def insert (mapping : TrackedMapping) (key : String) (value : Value) :
    Option Value × TrackedMapping :=
  let previous := mapping.get? key
  (previous, {
    entries := Entries.insert key value mapping.entries
    marked := mapping.marked || !sameValue previous value })

/-- Removes a key and tells the value it had. -/
def remove (mapping : TrackedMapping) (key : String) : Option Value × TrackedMapping :=
  let previous := mapping.get? key
  (previous, {
    entries := Entries.erase key mapping.entries
    marked := mapping.marked || previous.isSome })

/-- Stores the values of several keys. -/
def extend (mapping : TrackedMapping) (entries : List (String × Value)) : TrackedMapping :=
  entries.foldl (fun mapping entry => (mapping.insert entry.1 entry.2).2) mapping

/-- Removes all keys. -/
def clear (mapping : TrackedMapping) : TrackedMapping where
  entries := []
  marked := mapping.marked || !mapping.entries.isEmpty

end TrackedMapping

/-! ## Sets -/

/-- A set of a record while it is changed. -/
structure TrackedSet where
  members : List Value
  /-- Whether something was changed. -/
  marked : Bool := false

namespace TrackedSet

/-- Whether the set holds a value. -/
def contains (set : TrackedSet) (value : Value) : Bool :=
  value.isIn set.members

/-- Adds a member and tells whether it is new. -/
def insert (set : TrackedSet) (value : Value) : Bool × TrackedSet :=
  if set.contains value then (false, set)
  else (true, { members := set.members ++ [value], marked := true })

/-- Removes a member and tells whether it was there. -/
def remove (set : TrackedSet) (value : Value) : Bool × TrackedSet :=
  match set.members.findIdx? fun member => member.equals value with
  | some index => (true, { members := set.members.eraseIdx index, marked := true })
  | none => (false, set)

/-- Adds several members. -/
def extend (set : TrackedSet) (values : List Value) : TrackedSet :=
  values.foldl (fun set value => (set.insert value).2) set

/-- Removes all members. -/
def clear (set : TrackedSet) : TrackedSet where
  members := []
  marked := set.marked || !set.members.isEmpty

end TrackedSet

/-! ## Views of records -/

namespace Record

/-- The value of a column whose values can be changed in place. -/
def mutableValue (record : Record) (attr : String) : Except Error Value :=
  match record.model.column? attr with
  | none => .error (record.unknown attr)
  | some column =>
      if column.tracked then record.get attr
      else .error (.invalidValue (.notMutable record.modelName attr))

/-- The view of a list. -/
def listView (record : Record) (attr : String) : Except Error TrackedList := do
  match ← record.mutableValue attr with
  | .list items => return { items }
  | other => throw (record.mismatch attr other "list")

/-- The view of a mapping. -/
def mappingView (record : Record) (attr : String) : Except Error TrackedMapping := do
  match ← record.mutableValue attr with
  | .mapping entries => return { entries }
  | other => throw (record.mismatch attr other "mapping")

/-- The view of a set. -/
def setView (record : Record) (attr : String) : Except Error TrackedSet := do
  match ← record.mutableValue attr with
  | .set members => return { members }
  | other => throw (record.mismatch attr other "set")

/-- Puts a changed container back and marks it if something was changed. -/
def putBack (record : Record) (attr : String) (value : Value) (marked : Bool) : Record :=
  let restored := record.putValue attr value
  if marked then restored.markChanged attr else restored

/-- Puts a list back after its view was used. -/
def putList (record : Record) (attr : String) (list : TrackedList) : Record :=
  record.putBack attr (.list list.items) list.marked

/-- Puts a mapping back after its view was used. -/
def putMapping (record : Record) (attr : String) (mapping : TrackedMapping) : Record :=
  record.putBack attr (.mapping mapping.entries) mapping.marked

/-- Puts a set back after its view was used. -/
def putSet (record : Record) (attr : String) (set : TrackedSet) : Record :=
  record.putBack attr (.set set.members) set.marked

end Record

end RecordStore
