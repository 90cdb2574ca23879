import RecordStore.Proofs.Records.Retaining
import RecordStore.Proofs.Records.TrackedSets

/-!
# Exact marks

A single change of a container in place marks it exactly when the container is not equal afterwards to what
it was (`Content.Exact`).  Most changes leave the container alone or change its size; what replaces an item
or the value of a key compares the new one with the old one.  A change that fails or finds nothing leaves
everything (`marks_are_exact`).

To store the values of several keys is not a single change: it may mark a mapping that ends as it was.
-/

namespace RecordStore

/-! ## Contents -/

namespace Value

variable {a b : Value}

theorem size_eq_of_equals (h : a.equals b = true) : a.size = b.size := by
  cases a with
  | list xs =>
      cases b with
      | list ys => exact (equalsItems_iff.1 h).length_eq
      | _ => cases h
  | tuple xs =>
      cases b with
      | tuple ys => exact (equalsItems_iff.1 h).length_eq
      | _ => cases h
  | mapping xs =>
      cases b with
      | mapping ys => exact (equalsEntries_iff.1 h).length_eq
      | _ => cases h
  | set xs =>
      cases b with
      | set ys => exact (equals_sets_iff.1 h).1
      | _ => cases h
  | frozenSet xs =>
      cases b with
      | frozenSet ys => exact (equals_sets_iff.1 h).1
      | _ => cases h
  | _ =>
      rw [equals_of_scalar rfl] at h
      have hscalar := containerKind?_of_equalsScalar h
      cases b with
      | list | tuple | mapping | set | frozenSet => cases hscalar
      | _ => rfl

end Value

namespace Content

variable {before after : Content}

/-- A content is marked when it was before, or when it is not equal to what it was, and only then. -/
def Exact (before after : Content) : Prop :=
  after.marked = (before.marked || !before.value.equals after.value)

/-- A container that is the same is equal, and one of another size is not. -/
theorem Resized.exact (h : before.Resized after) (hproper : before.value.isProper = true) :
    before.Exact after := by
  unfold Exact
  rcases h with rfl | ⟨hmarked, hsize⟩
  · rw [Value.equals_refl hproper, Bool.not_true, Bool.or_false]
  · have hdiffer : before.value.equals after.value = false :=
      Bool.eq_false_iff.2 fun hequal => hsize (Value.size_eq_of_equals hequal)
    rw [hmarked, hdiffer, Bool.not_false, Bool.or_true]

end Content

/-! ## Lists -/

namespace ListChange

variable {view : TrackedList} {change : ListChange}

/-- The change fails, or there is nothing that it could do. -/
def Misses (view : TrackedList) : ListChange → Prop
  | push _ => False
  | extend items => items = []
  | pop => view.pop.1 = none
  | insert index item => ∃ error, view.insert index item = .error error
  | remove index => ∃ error, view.remove index = .error error
  | set index item => ∃ error, view.set index item = .error error
  | truncate length => view.items.length ≤ length
  | clear => view.items = []

theorem apply_of_misses (h : change.Misses view) : change.apply view = view := by
  cases change with
  | push => exact h.elim
  | extend items =>
      obtain rfl : items = [] := h
      simp [apply, TrackedList.extend]
  | pop =>
      unfold Misses TrackedList.pop at h
      unfold apply TrackedList.pop
      cases hlast : view.items.getLast? with
      | none => rfl
      | some last => simp [hlast] at h
  | insert index item =>
      obtain ⟨error, herror⟩ := h
      show (view.insert index item).toOption.getD view = view
      rw [herror]
      rfl
  | remove index =>
      obtain ⟨error, herror⟩ := h
      show ((view.remove index).toOption.map (·.2)).getD view = view
      rw [herror]
      rfl
  | set index item =>
      obtain ⟨error, herror⟩ := h
      show ((view.set index item).toOption.map (·.2)).getD view = view
      rw [herror]
      rfl
  | truncate length =>
      have hlength : view.items.length ≤ length := h
      simp [apply, TrackedList.truncate, Nat.not_lt.2 hlength, List.take_of_length_le hlength]
  | clear =>
      obtain ⟨items, marked⟩ := view
      obtain rfl : items = [] := h
      simp [apply, TrackedList.clear]

/-- A list with one item replaced is equal to what it was exactly when the item is. -/
theorem equalsItems_replaced {front back : List Value} (hfront : ∀ item ∈ front, item.isProper = true)
    (hback : ∀ item ∈ back, item.isProper = true) (old new : Value) :
    Value.equalsItems (front ++ old :: back) (front ++ new :: back) = old.equals new := by
  induction front with
  | nil =>
      have hsame : Value.equalsItems back back = true := Value.equals_refl (Value.isProper_list.2 hback)
      rw [List.nil_append, List.nil_append, Value.equalsItems, hsame, Bool.and_true]
  | cons first rest ih =>
      rw [List.cons_append, List.cons_append, Value.equalsItems,
        Value.equals_refl (hfront first List.mem_cons_self), Bool.true_and]
      exact ih fun item hitem => hfront item (List.mem_cons_of_mem _ hitem)

/-- A change of a list marks it exactly. -/
theorem exact_apply (change : ListChange) (hproper : (Value.list view.items).isProper = true) :
    view.content.Exact (change.apply view).content := by
  rcases apply_cases view change with hresized | ⟨index, item, previous, -, hprevious, hafter⟩
  · exact hresized.exact hproper
  · obtain ⟨hindex, rfl⟩ := List.getElem?_eq_some_iff.1 hprevious
    obtain ⟨front, back, hitems, -, hset⟩ := @List.exists_of_set _ index item view.items hindex
    have hproper' : ∀ other ∈ front ++ view.items[index] :: back, other.isProper = true :=
      hitems ▸ Value.isProper_list.1 hproper
    -- The mark goes by the item, which stands for the whole list.
    have hequal : Value.equalsItems view.items (view.items.set index item) =
        view.items[index].equals item := by
      rw [hset]
      nth_rewrite 1 [hitems]
      exact equalsItems_replaced (fun other hother => hproper' other (List.mem_append_left _ hother))
        (fun other hother => hproper' other (List.mem_append_right _ (List.mem_cons_of_mem _ hother))) ..
    rw [hafter]
    show (view.marked || !view.items[index].equals item) =
      (view.marked || !Value.equalsItems view.items (view.items.set index item))
    rw [hequal]

end ListChange

/-! ## Mappings -/

namespace MappingChange

variable {view : TrackedMapping} {change : MappingChange}

/-- There is nothing to be removed, or to be stored. -/
def Misses (view : TrackedMapping) : MappingChange → Prop
  | insert .. => False
  | remove key => (view.remove key).1 = none
  | extend entries => entries = []
  | clear => view.entries = []

theorem apply_of_misses (h : change.Misses view) : change.apply view = view := by
  cases change with
  | insert => exact h.elim
  | remove key =>
      have hnone : Entries.find? key view.entries = none := h
      show ({ entries := Entries.erase key view.entries
              marked := view.marked || (Entries.find? key view.entries).isSome } : TrackedMapping) = view
      rw [hnone, Entries.erase_eq_self hnone, Option.isSome_none, Bool.or_false]
  | extend entries =>
      obtain rfl : entries = [] := h
      rfl
  | clear =>
      obtain ⟨entries, marked⟩ := view
      obtain rfl : entries = [] := h
      simp [apply, TrackedMapping.clear]

/-- A mapping with the value of one key replaced is equal to what it was exactly when the value is. -/
theorem equalsEntries_replaced {front back : List (String × Value)}
    (hfront : ∀ entry ∈ front, entry.2.isProper = true)
    (hback : ∀ entry ∈ back, entry.2.isProper = true) (key : String) (old new : Value) :
    Value.equalsEntries (front ++ (key, old) :: back) (front ++ (key, new) :: back) = old.equals new := by
  induction front with
  | nil =>
      have hsame : Value.equalsEntries back back = true :=
        Value.equals_refl (Value.isProper_mapping.2 hback)
      rw [List.nil_append, List.nil_append, Value.equalsEntries, hsame, beq_self_eq_true, Bool.true_and,
        Bool.and_true]
  | cons first rest ih =>
      rw [List.cons_append, List.cons_append, Value.equalsEntries, beq_self_eq_true, Bool.true_and,
        Value.equals_refl (hfront first List.mem_cons_self), Bool.true_and]
      exact ih fun entry hentry => hfront entry (List.mem_cons_of_mem _ hentry)

/-- A single change of a mapping in key order marks it exactly. -/
theorem exact_apply (hsingle : change.IsSingle) (hproper : (Value.mapping view.entries).isProper = true)
    (hsorted : Entries.Sorted view.entries) : view.content.Exact (change.apply view).content := by
  rcases apply_cases hsingle view with hresized | ⟨key, value, previous, -, hprevious, hafter⟩
  · exact hresized.exact hproper
  · obtain ⟨front, back, hentries, hinsert⟩ := hsorted.exists_replaced hprevious
    have hproper' : ∀ entry ∈ front ++ (key, previous) :: back, entry.2.isProper = true :=
      hentries ▸ Value.isProper_mapping.1 hproper
    -- The mark goes by the value of the key, which stands for the whole mapping.
    have hequal : Value.equalsEntries view.entries (Entries.insert key value view.entries) =
        previous.equals value := by
      rw [hinsert, hentries]
      exact equalsEntries_replaced (fun entry hentry => hproper' entry (List.mem_append_left _ hentry))
        (fun entry hentry => hproper' entry (List.mem_append_right _ (List.mem_cons_of_mem _ hentry))) ..
    rw [hafter]
    show (view.marked || !previous.equals value) =
      (view.marked || !Value.equalsEntries view.entries (Entries.insert key value view.entries))
    rw [hequal]

end MappingChange

/-- Several values may be stored one after the other so that the last one undoes what the first one did. -/
example : ((TrackedMapping.extend { entries := [("a", .integer 1)] }
    [("a", .integer 2), ("a", .integer 1)]).marked,
    (Value.mapping (TrackedMapping.extend { entries := [("a", .integer 1)] }
      [("a", .integer 2), ("a", .integer 1)]).entries).equals (.mapping [("a", .integer 1)])) =
    (true, true) := by
  decide +kernel

/-! ## Sets -/

namespace SetChange

variable {view : TrackedSet} {change : SetChange}

/-- There is nothing to be removed, or what is to be inserted is there. -/
def Misses (view : TrackedSet) : SetChange → Prop
  | insert value => (view.insert value).1 = false
  | remove value => (view.remove value).1 = false
  | extend values => ∀ value ∈ values, (view.insert value).1 = false
  | clear => view.members = []

theorem apply_of_misses (h : change.Misses view) : change.apply view = view := by
  cases change with
  | insert value => exact TrackedSet.insert_of_fst h
  | extend values =>
      unfold Misses at h
      show view.extend values = view
      induction values with
      | nil => rfl
      | cons value rest ih =>
          show (view.insert value).2.extend rest = view
          rw [TrackedSet.insert_of_fst (h value List.mem_cons_self)]
          exact ih fun other hother => h other (List.mem_cons_of_mem _ hother)
  | clear =>
      obtain ⟨members, marked⟩ := view
      obtain rfl : members = [] := h
      simp [apply, TrackedSet.clear]
  | remove value =>
      change (view.remove value).1 = false at h
      show (view.remove value).2 = view
      unfold TrackedSet.remove at h ⊢
      cases hfound : view.members.findIdx? fun member => member.equals value with
      | none => rfl
      | some index =>
          rw [hfound] at h
          cases h

/-- A change of a set marks it exactly. -/
theorem exact_apply (change : SetChange) (hproper : (Value.set view.members).isProper = true) :
    view.content.Exact (change.apply view).content :=
  (apply_resized view change).exact hproper

end SetChange

/-! ## Attributes -/

/-- A change of a container in place, of whatever type the container is. -/
inductive ContainerChange where
  | list (change : ListChange)
  | mapping (change : MappingChange)
  | set (change : SetChange)

namespace ContainerChange

variable {change : ContainerChange} {record : Record} {attr : String} {value : Value}

/-- The change is one of such a container. -/
inductive Suits : ContainerChange → Value → Prop where
  | list (change : ListChange) (items : List Value) : Suits (.list change) (.list items)
  | mapping (change : MappingChange) (entries : List (String × Value)) :
      Suits (.mapping change) (.mapping entries)
  | set (change : SetChange) (members : List Value) : Suits (.set change) (.set members)

/-- Whether the change is a single one. -/
def IsSingle : ContainerChange → Prop
  | mapping change => change.IsSingle
  | list _ | set _ => True

/-- The values that are given with the change. -/
def arguments : ContainerChange → List Value
  | list change => change.values
  | mapping change => change.values
  | set change => change.arguments

/-- The change fails, or there is nothing that it could do. -/
def Misses : ContainerChange → Value → Prop
  | list change, .list items => change.Misses { items }
  | mapping change, .mapping entries => change.Misses { entries }
  | set change, .set members => change.Misses { members }
  | _, _ => False

/-- The content of a container after the change. -/
def apply : ContainerChange → Value → Content
  | list change, .list items => (change.apply { items }).content
  | mapping change, .mapping entries => (change.apply { entries }).content
  | set change, .set members => (change.apply { members }).content
  | _, value => { value, marked := false }

/-- Changes the container of an attribute through its view, and puts it back even when the change failed. -/
def perform (record : Record) (attr : String) : ContainerChange → Except Error Record
  | list change => do
      let view ← record.listView attr
      return record.putList attr (change.apply view)
  | mapping change => do
      let view ← record.mappingView attr
      return record.putMapping attr (change.apply view)
  | set change => do
      let view ← record.setView attr
      return record.putSet attr (change.apply view)

/-- What is put back is the content after the change. -/
theorem perform_eq (hsuits : change.Suits value) (hvalue : record.mutableValue attr = .ok value) :
    change.perform record attr =
      .ok (record.putBack attr (change.apply value).value (change.apply value).marked) := by
  cases hsuits with
  | list change items =>
      unfold perform Record.listView
      rw [hvalue]
      rfl
  | mapping change entries =>
      unfold perform Record.mappingView
      rw [hvalue]
      rfl
  | set change members =>
      unfold perform Record.setView
      rw [hvalue]
      rfl

/-- A single change marks a container exactly. -/
theorem exact_apply (hsuits : change.Suits value) (hsingle : change.IsSingle)
    (hproper : value.isProper = true) (hordered : value.KeyOrdered) :
    Content.Exact { value, marked := false } (change.apply value) := by
  cases hsuits with
  | list change items => exact change.exact_apply hproper
  | mapping change entries => exact MappingChange.exact_apply hsingle hproper hordered.1
  | set change members => exact change.exact_apply hproper

/-- What is made of proper values is proper. -/
theorem isProper_apply (hsuits : change.Suits value) (hsingle : change.IsSingle)
    (hproper : value.isProper = true)
    (harguments : ∀ argument ∈ change.arguments, argument.isProper = true) :
    (change.apply value).value.isProper = true := by
  cases hsuits with
  | list change items =>
      refine Value.isProper_list.2 fun item hitem => ?_
      rcases ListChange.mem_apply hitem with hbefore | hnew
      · exact Value.isProper_list.1 hproper item hbefore
      · exact harguments item hnew
  | mapping change entries =>
      refine Value.isProper_mapping.2 fun entry hentry => ?_
      rcases MappingChange.mem_apply hsingle hentry with hbefore | hnew
      · exact Value.isProper_mapping.1 hproper entry hbefore
      · exact harguments entry.2 hnew
  | set change members => exact TrackedSet.isProper_apply hproper harguments

theorem apply_of_misses (hsuits : change.Suits value) (hmisses : change.Misses value) :
    change.apply value = { value, marked := false } := by
  cases hsuits with
  | list change items => exact congrArg TrackedList.content (ListChange.apply_of_misses hmisses)
  | mapping change entries => exact congrArg TrackedMapping.content (MappingChange.apply_of_misses hmisses)
  | set change members => exact congrArg TrackedSet.content (SetChange.apply_of_misses hmisses)

end ContainerChange

/-- Marks are exact.  Take an attribute whose container can be changed in place, is proper and has its
mappings in key order, and a single change that suits it.  The change can be performed.  Afterwards the
attribute is marked when it was before or the container is not equal to what it was, and only then; other
attributes have the values and marks that they had; and a change that fails or finds nothing leaves the
whole record.  When the values given with the change are proper too, it does not matter which container is
compared with which. -/
theorem marks_are_exact {record : Record} {attr : String} {before : Value} {change : ContainerChange}
    (hbefore : record.mutableValue attr = .ok before) (hproper : before.isProper = true)
    (hordered : before.KeyOrdered) (hsuits : change.Suits before) (hsingle : change.IsSingle) :
    ∃ changed after, change.perform record attr = .ok changed ∧ changed.get attr = .ok after ∧
      changed.isChanged attr = (record.isChanged attr || !before.equals after) ∧
      ((∀ argument ∈ change.arguments, argument.isProper = true) →
        after.equals before = before.equals after) ∧
      (∀ other, other ≠ attr → changed.isChanged other = record.isChanged other ∧
        changed.values.find? other = record.values.find? other) ∧
      (change.Misses before → changed = record) := by
  have hexact := ContainerChange.exact_apply hsuits hsingle hproper hordered
  refine ⟨_, (change.apply before).value, ContainerChange.perform_eq hsuits hbefore, ?_, ?_, ?_, ?_, ?_⟩
  · exact Record.get_eq_ok.2 ((Record.find?_putBack ..).trans (if_pos rfl))
  · rw [Record.isChanged_putBack, if_pos rfl, hexact, Bool.false_or]
  · intro harguments
    have hafter := ContainerChange.isProper_apply hsuits hsingle hproper harguments
    exact Value.equals_comm hafter hproper
  · intro other hother
    exact ⟨(Record.isChanged_putBack ..).trans (if_neg hother),
      (Record.find?_putBack ..).trans (if_neg hother)⟩
  · intro hmisses
    rw [ContainerChange.apply_of_misses hsuits hmisses]
    obtain ⟨-, -, -, hvalue⟩ := Record.of_mutableValue hbefore
    exact Record.putBack_self hvalue

/-- An item with the price 1.0. -/
def pricedItem : Record :=
  (Record.new {
    blueprint := { name := "Item", names := none, fields := [("prices", .primitive .list)] }
    tableName := "items", relatedName := "items"
    columns := [{ name := "prices", field := "prices", kind := .container .list, tracked := true }]
    relationships := [] } []).putValue "prices" (.list [.oneInTenths])

/-- To write the price with another digit does not mark it, another price does, and a second price cannot be
taken away. -/
theorem marks_are_exact_of_prices :
    (∃ changed, (ContainerChange.list (.set 0 .oneInHundredths)).perform pricedItem "prices" = .ok changed ∧
      changed.isChanged "prices" = false) ∧
    (∃ changed, (ContainerChange.list (.set 0 (.integer 2))).perform pricedItem "prices" = .ok changed ∧
      changed.isChanged "prices" = true) ∧
    (ContainerChange.list (.remove 1)).perform pricedItem "prices" = .ok pricedItem := by
  have hbefore : pricedItem.mutableValue "prices" = .ok (.list [.oneInTenths]) := rfl
  have hproper : (Value.list [.oneInTenths]).isProper = true := by decide +kernel
  have hordered : (Value.list [.oneInTenths]).KeyOrdered := ⟨trivial, trivial⟩
  refine ⟨?_, ?_, ?_⟩
  · obtain ⟨changed, after, hperform, hafter, hmark, -⟩ :=
      marks_are_exact hbefore hproper hordered (.list (.set 0 .oneInHundredths) _) trivial
    cases hperform
    cases hafter
    refine ⟨_, rfl, hmark.trans ?_⟩
    decide +kernel
  · obtain ⟨changed, after, hperform, hafter, hmark, -⟩ :=
      marks_are_exact hbefore hproper hordered (.list (.set 0 (.integer 2)) _) trivial
    cases hperform
    cases hafter
    refine ⟨_, rfl, hmark.trans ?_⟩
    decide +kernel
  · obtain ⟨changed, after, hperform, -, -, -, -, hmisses⟩ :=
      marks_are_exact hbefore hproper hordered (.list (.remove 1) _) trivial
    rw [hperform, hmisses ⟨_, rfl⟩]

end RecordStore
