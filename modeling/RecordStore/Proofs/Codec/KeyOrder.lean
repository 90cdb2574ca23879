import RecordStore.Value.Basic

/-!
# Mappings in key order

Mappings of values that the library builds have their entries in key order, each key once, at every
depth (`Value.KeyOrdered`).  The type of values does not demand it, and reading encoded data
establishes it: what is read is `Value.keyOrder` of what was written, which is the same value
whenever that one is key ordered (`Value.keyOrder_eq`).
-/

namespace RecordStore

namespace Entries

variable {κ α : Type} [DecidableEq κ] [KeyOrder κ]

/-- An entry whose key stands behind all others is stored at the end. -/
theorem insert_of_forall_lt {key : κ} {value : α} {entries : List (κ × α)}
    (h : ∀ entry ∈ entries, KeyOrder.lt entry.1 key = true) :
    insert key value entries = entries ++ [(key, value)] := by
  induction entries with
  | nil => rfl
  | cons head rest ih =>
      obtain ⟨k, v⟩ := head
      have hlt : KeyOrder.lt k key = true := h (k, v) List.mem_cons_self
      have hne : ¬key = k := by
        rintro rfl
        simp [KeyOrder.lt_irrefl] at hlt
      have hnlt : KeyOrder.lt key k = false := by
        cases hkk : KeyOrder.lt key k with
        | false => rfl
        | true =>
            have hloop := KeyOrder.lt_trans hlt hkk
            simp [KeyOrder.lt_irrefl] at hloop
      have hrest := ih fun entry hentry => h entry (List.mem_cons_of_mem _ hentry)
      simp [insert, hne, hnlt, hrest]

theorem foldl_insert_of_sorted (entries rest : List (κ × α)) (h : Sorted (entries ++ rest)) :
    rest.foldl (fun entries pair => insert pair.1 pair.2 entries) entries = entries ++ rest := by
  induction rest generalizing entries with
  | nil => simp
  | cons head rest ih =>
      have hbefore : ∀ entry ∈ entries, KeyOrder.lt entry.1 head.1 = true := by
        intro entry hentry
        exact (List.pairwise_append.1 h).2.2 entry hentry head List.mem_cons_self
      have hinsert : insert head.1 head.2 entries = entries ++ [head] :=
        insert_of_forall_lt hbefore
      have hsorted : Sorted ((entries ++ [head]) ++ rest) := by
        simpa [Sorted] using h
      rw [List.foldl_cons, hinsert, ih (entries ++ [head]) hsorted]
      simp

theorem mem_of_mem_ofList {pairs : List (κ × α)} {entry : κ × α} (h : entry ∈ ofList pairs) :
    entry ∈ pairs := by
  have hfold : ∀ start : List (κ × α),
      entry ∈ pairs.foldl (fun entries pair => insert pair.1 pair.2 entries) start →
        entry ∈ start ∨ entry ∈ pairs := by
    clear h
    induction pairs with
    | nil => exact fun start hentry => Or.inl hentry
    | cons pair rest ih =>
        intro start hentry
        rcases ih _ hentry with hstart | hrest
        · rcases mem_of_mem_insert hstart with rfl | hstart
          · exact Or.inr List.mem_cons_self
          · exact Or.inl hstart
        · exact Or.inr (List.mem_cons_of_mem _ hrest)
  rcases hfold [] h with hnone | hmem
  · cases hnone
  · exact hmem

theorem ofList_of_sorted {entries : List (κ × α)} (h : Sorted entries) : ofList entries = entries :=
  foldl_insert_of_sorted [] entries h

end Entries

namespace Value

mutual

/-- The value with the entries of all its mappings brought into key order. -/
def keyOrder : Value → Value
  | list items => list (itemsKeyOrder items)
  | mapping entries => mappingOf (entriesKeyOrder entries)
  | tuple items => tuple (itemsKeyOrder items)
  | set members => set (itemsKeyOrder members)
  | frozenSet members => frozenSet (itemsKeyOrder members)
  | scalar => scalar
termination_by structural value => value

/-- The items of a container with their mappings brought into key order. -/
def itemsKeyOrder : List Value → List Value
  | [] => []
  | x :: xs => keyOrder x :: itemsKeyOrder xs
termination_by structural items => items

/-- The entries of a mapping, where they stand, with the mappings inside brought into key order. -/
def entriesKeyOrder : List (String × Value) → List (String × Value)
  | [] => []
  | (k, x) :: xs => (k, keyOrder x) :: entriesKeyOrder xs
termination_by structural entries => entries

end

mutual

/-- All mappings of the value, at every depth, have their entries in key order. -/
def KeyOrdered : Value → Prop
  | list items => ItemsKeyOrdered items
  | mapping entries => Entries.Sorted entries ∧ EntriesKeyOrdered entries
  | tuple items => ItemsKeyOrdered items
  | set members => ItemsKeyOrdered members
  | frozenSet members => ItemsKeyOrdered members
  | _ => True
termination_by structural value => value

/-- All mappings in the items of a container have their entries in key order. -/
def ItemsKeyOrdered : List Value → Prop
  | [] => True
  | x :: xs => KeyOrdered x ∧ ItemsKeyOrdered xs
termination_by structural items => items

/-- All mappings in the entries of a mapping have their entries in key order. -/
def EntriesKeyOrdered : List (String × Value) → Prop
  | [] => True
  | (_, x) :: xs => KeyOrdered x ∧ EntriesKeyOrdered xs
termination_by structural entries => entries

end

mutual

/-- Nothing changes where the entries are in key order already. -/
theorem keyOrder_eq (value : Value) (h : value.KeyOrdered) : value.keyOrder = value := by
  cases value with
  | list items => exact congrArg list (itemsKeyOrder_eq items h)
  | tuple items => exact congrArg tuple (itemsKeyOrder_eq items h)
  | set members => exact congrArg set (itemsKeyOrder_eq members h)
  | frozenSet members => exact congrArg frozenSet (itemsKeyOrder_eq members h)
  | mapping entries =>
      obtain ⟨hsorted, hentries⟩ := h
      have hsame := entriesKeyOrder_eq entries hentries
      rw [keyOrder, hsame, mappingOf, Entries.ofList_of_sorted hsorted]
  | _ => rfl
termination_by structural value

theorem itemsKeyOrder_eq (items : List Value) (h : ItemsKeyOrdered items) :
    itemsKeyOrder items = items := by
  cases items with
  | nil => rfl
  | cons x xs => rw [itemsKeyOrder, keyOrder_eq x h.1, itemsKeyOrder_eq xs h.2]
termination_by structural items

theorem entriesKeyOrder_eq (entries : List (String × Value)) (h : EntriesKeyOrdered entries) :
    entriesKeyOrder entries = entries := by
  cases entries with
  | nil => rfl
  | cons entry xs =>
      obtain ⟨k, x⟩ := entry
      rw [entriesKeyOrder, keyOrder_eq x h.1, entriesKeyOrder_eq xs h.2]
termination_by structural entries

end

theorem itemsKeyOrdered_iff {items : List Value} :
    ItemsKeyOrdered items ↔ ∀ item ∈ items, item.KeyOrdered := by
  induction items with
  | nil => simp [ItemsKeyOrdered]
  | cons x xs ih => simp [ItemsKeyOrdered, ih]

theorem entriesKeyOrdered_iff {entries : List (String × Value)} :
    EntriesKeyOrdered entries ↔ ∀ entry ∈ entries, entry.2.KeyOrdered := by
  induction entries with
  | nil => simp [EntriesKeyOrdered]
  | cons entry xs ih =>
      obtain ⟨k, x⟩ := entry
      simp [EntriesKeyOrdered, ih]

mutual

/-- What has been brought into key order is in key order. -/
theorem keyOrdered_keyOrder (value : Value) : value.keyOrder.KeyOrdered := by
  cases value with
  | list items => exact itemsKeyOrdered_itemsKeyOrder items
  | tuple items => exact itemsKeyOrdered_itemsKeyOrder items
  | set members => exact itemsKeyOrdered_itemsKeyOrder members
  | frozenSet members => exact itemsKeyOrdered_itemsKeyOrder members
  | mapping entries =>
      refine ⟨Entries.sorted_ofList _, entriesKeyOrdered_iff.2 ?_⟩
      intro entry hentry
      exact entriesKeyOrdered_iff.1 (entriesKeyOrdered_entriesKeyOrder entries) entry
        (Entries.mem_of_mem_ofList hentry)
  | _ => trivial
termination_by structural value

theorem itemsKeyOrdered_itemsKeyOrder (items : List Value) :
    ItemsKeyOrdered (itemsKeyOrder items) := by
  cases items with
  | nil => trivial
  | cons x xs => exact ⟨keyOrdered_keyOrder x, itemsKeyOrdered_itemsKeyOrder xs⟩
termination_by structural items

theorem entriesKeyOrdered_entriesKeyOrder (entries : List (String × Value)) :
    EntriesKeyOrdered (entriesKeyOrder entries) := by
  cases entries with
  | nil => trivial
  | cons entry xs =>
      obtain ⟨k, x⟩ := entry
      exact ⟨keyOrdered_keyOrder x, entriesKeyOrdered_entriesKeyOrder xs⟩
termination_by structural entries

end

end Value

end RecordStore
