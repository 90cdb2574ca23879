import RecordStore.Value.Basic

/-!
# Equality of values

`Value.equals` is the equality by which look-ups, sets and uniqueness go.  Values of different types are
never equal; floating-point numbers and decimals are compared as numbers; lists, tuples and mappings item
by item; sets are equal when they have as many members and each member of the first is met in the second.

A member `x` is met in a list when some `y` of the list equals it, `y` standing on the left.  The sides
therefore change at every level of nested sets, and `Value.equals` is defined together with
`Value.equaledBy`, which is the same relation read from its second argument.
-/

namespace RecordStore

namespace Value

/-- Equality of values that are no containers. -/
def equalsScalar : Value → Value → Bool
  | null, null => true
  | integer a, integer b => a == b
  | float a, float b => a.equals b
  | boolean a, boolean b => a == b
  | text a, text b => a == b
  | bytes a, bytes b => a == b
  | decimal a, decimal b => a.equals b
  | date a, date b => a == b
  | dateTime a, dateTime b => a == b
  | time a, time b => a == b
  | _, _ => false

mutual

/-- Whether the first value equals the second. -/
def equals : Value → Value → Bool
  | list a, list b => equalsItems a b
  | tuple a, tuple b => equalsItems a b
  | mapping a, mapping b => equalsEntries a b
  | set a, set b => a.length == b.length && allMetIn a b
  | frozenSet a, frozenSet b => a.length == b.length && allMetIn a b
  | a, b => equalsScalar a b
termination_by structural first => first

/-- Whether two lists are equal item by item. -/
def equalsItems : List Value → List Value → Bool
  | [], [] => true
  | x :: xs, y :: ys => equals x y && equalsItems xs ys
  | _, _ => false
termination_by structural first => first

/-- Whether two lists of entries are equal entry by entry. -/
def equalsEntries : List (String × Value) → List (String × Value) → Bool
  | [], [] => true
  | (k, x) :: xs, (l, y) :: ys => k == l && equals x y && equalsEntries xs ys
  | _, _ => false
termination_by structural first => first

/-- Whether each value of the first list is equaled by some value of the second. -/
def allMetIn : List Value → List Value → Bool
  | [], _ => true
  | x :: xs, ys => ys.any (fun y => equaledBy x y) && allMetIn xs ys
termination_by structural first => first

/-- Whether the second value equals the first. -/
def equaledBy : Value → Value → Bool
  | list a, list b => equaledByItems a b
  | tuple a, tuple b => equaledByItems a b
  | mapping a, mapping b => equaledByEntries a b
  | set a, set b => b.length == a.length && b.all fun y => someEquals a y
  | frozenSet a, frozenSet b => b.length == a.length && b.all fun y => someEquals a y
  | a, b => equalsScalar b a
termination_by structural first => first

/-- Whether the second list equals the first item by item. -/
def equaledByItems : List Value → List Value → Bool
  | [], [] => true
  | x :: xs, y :: ys => equaledBy x y && equaledByItems xs ys
  | _, _ => false
termination_by structural first => first

/-- Whether the second list of entries equals the first entry by entry. -/
def equaledByEntries : List (String × Value) → List (String × Value) → Bool
  | [], [] => true
  | (k, x) :: xs, (l, y) :: ys => l == k && equaledBy x y && equaledByEntries xs ys
  | _, _ => false
termination_by structural first => first

/-- Whether some value of a list equals a value. -/
def someEquals : List Value → Value → Bool
  | [], _ => false
  | x :: xs, y => equals x y || someEquals xs y
termination_by structural first => first

end

/-! ## Membership -/

/-- Whether a list holds a value that equals the given one. -/
def isIn (value : Value) (items : List Value) : Bool :=
  items.any fun item => item.equals value

/-- The items of a list that equal no item kept before them. -/
def distinct (items : List Value) : List Value :=
  items.foldl (fun kept item => if item.isIn kept then kept else kept ++ [item]) []

/-- The set of the given items. -/
def setOf (items : List Value) : Value :=
  set (distinct items)

/-- The immutable set of the given items. -/
def frozenSetOf (items : List Value) : Value :=
  frozenSet (distinct items)

end Value

end RecordStore
