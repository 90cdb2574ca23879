import RecordStore.Proofs.Codec.KeyOrder
import RecordStore.Proofs.SortedMap
import RecordStore.Proofs.Value.Equality
import RecordStore.Tracked

/-!
# Changes in place

A change of a container in place leaves it, or marks it and changes its size (`Content.Resized`); or it puts
an item or the value of a key in the place of another one, where the mark goes by these two
(`ListChange.apply_cases`, `MappingChange.apply_cases`, `SetChange.apply_resized`).  So it marks the container
or leaves its items alike, each at its place (`Content.Kept`).  A change that fails leaves everything.  Whole
sequences of changes do the same, since being alike is transitive (`ListChange.kept_foldl`,
`MappingChange.kept_foldl`, `SetChange.kept_foldl`).

Replacing the value of a key leaves the other entries at their places only when the entries are in key
order, as they are in all mappings that the library builds.
-/

namespace RecordStore

/-! ## Contents -/

/-- The content of a container while it is changed, and whether something was changed. -/
structure Content where
  value : Value
  marked : Bool

/-- The number of items of a container. -/
def Value.size : Value → Nat
  | list items => items.length
  | mapping entries => entries.length
  | tuple items => items.length
  | set members => members.length
  | frozenSet members => members.length
  | _ => 0

/-- A content is the one before, or it is marked and has another size. -/
def Content.Resized (before after : Content) : Prop :=
  after = before ∨ after.marked = true ∧ before.value.size ≠ after.value.size

/-- A content is marked, or its items are alike those it had before. -/
structure Content.Kept (before after : Content) : Prop where
  marked : before.marked = true → after.marked = true
  keyOrdered : before.value.KeyOrdered → after.value.KeyOrdered
  alike : before.value.KeyOrdered → after.marked = false → before.value.AlikeItems after.value

namespace Content

variable {before after last : Content}

theorem Kept.refl (content : Content) : content.Kept content where
  marked h := h
  keyOrdered h := h
  alike _ _ := .same content.value

theorem Kept.trans (h : before.Kept after) (h' : after.Kept last) : before.Kept last where
  marked hmarked := h'.marked (h.marked hmarked)
  keyOrdered hordered := h'.keyOrdered (h.keyOrdered hordered)
  alike hordered hunmarked := by
    -- What is not marked at the end was not marked in between.
    have hbetween : after.marked = false := by
      cases hcase : after.marked with
      | false => rfl
      | true =>
          rw [h'.marked hcase] at hunmarked
          cases hunmarked
    exact (h.alike hordered hbetween).trans (h'.alike (h.keyOrdered hordered) hunmarked)

theorem Resized.kept (h : before.Resized after)
    (hordered : before.value.KeyOrdered → after.value.KeyOrdered) : before.Kept after := by
  rcases h with rfl | ⟨hmarked, -⟩
  · exact .refl _
  · refine ⟨fun _ => hmarked, hordered, ?_⟩
    intro _ hunmarked
    rw [hmarked] at hunmarked
    cases hunmarked

/-- What each change keeps is kept by a sequence of changes. -/
theorem kept_foldl {α β : Type} {content : α → Content} {apply : α → β → α} {changes : List β}
    (hkept : ∀ change ∈ changes, ∀ view, (content view).Kept (content (apply view change)))
    (view : α) : (content view).Kept (content (changes.foldl apply view)) := by
  induction changes generalizing view with
  | nil => exact .refl _
  | cons change rest ih =>
      refine (hkept change List.mem_cons_self view).trans (ih ?_ _)
      intro other hother
      exact hkept other (List.mem_cons_of_mem _ hother)

end Content

/-! ## Lists -/

/-- The content of a list. -/
def TrackedList.content (view : TrackedList) : Content where
  value := .list view.items
  marked := view.marked

/-- A change of a list in place. -/
inductive ListChange where
  | push (item : Value)
  | extend (items : List Value)
  | pop
  | insert (index : Nat) (item : Value)
  | remove (index : Nat)
  | set (index : Nat) (item : Value)
  | truncate (length : Nat)
  | clear

namespace ListChange

/-- The values that come into the list. -/
def values : ListChange → List Value
  | push item => [item]
  | extend items => items
  | insert _ item => [item]
  | set _ item => [item]
  | pop | remove _ | truncate _ | clear => []

/-- The list after the change, which is the same list when the change fails. -/
def apply (view : TrackedList) : ListChange → TrackedList
  | push item => view.push item
  | extend items => view.extend items
  | pop => view.pop.2
  | insert index item => (view.insert index item).toOption.getD view
  | remove index => ((view.remove index).toOption.map (·.2)).getD view
  | set index item => ((view.set index item).toOption.map (·.2)).getD view
  | truncate length => view.truncate length
  | clear => view.clear

variable {view : TrackedList} {change : ListChange}

/-- All that a change does to a list: it leaves the list, or marks it and makes it longer or shorter, or it
puts an item in the place of another one, where the mark goes by these two. -/
theorem apply_cases (view : TrackedList) (change : ListChange) :
    view.content.Resized (change.apply view).content ∨
      ∃ index item previous, change = .set index item ∧ view.items[index]? = some previous ∧
        change.apply view = {
          items := view.items.set index item, marked := view.marked || !previous.equals item } := by
  -- Only an assignment can change the list and keep its length.
  cases change with
  | push item =>
      refine Or.inl (Or.inr ⟨rfl, ?_⟩)
      simp [apply, TrackedList.content, TrackedList.push, Value.size]
  | extend items =>
      refine Or.inl ?_
      cases items with
      | nil => exact Or.inl (by simp [apply, TrackedList.content, TrackedList.extend])
      | cons first rest =>
          refine Or.inr ⟨Bool.or_true _, ?_⟩
          simp [apply, TrackedList.content, TrackedList.extend, Value.size]
  | pop =>
      refine Or.inl ?_
      show view.content.Resized view.pop.2.content
      unfold TrackedList.pop
      cases hlast : view.items.getLast? with
      | none => exact Or.inl rfl
      | some last =>
          have hnonempty : view.items ≠ [] := by
            intro hnone
            simp [hnone] at hlast
          have hpositive := List.length_pos_iff.2 hnonempty
          refine Or.inr ⟨rfl, ?_⟩
          show view.items.length ≠ view.items.dropLast.length
          rw [List.length_dropLast]
          omega
  | insert index item =>
      refine Or.inl ?_
      show view.content.Resized ((view.insert index item).toOption.getD view).content
      unfold TrackedList.insert
      by_cases hindex : index ≤ view.items.length
      · rw [if_pos hindex]
        refine Or.inr ⟨rfl, ?_⟩
        show view.items.length ≠ (view.items.take index ++ item :: view.items.drop index).length
        simp only [List.length_append, List.length_cons, List.length_take, List.length_drop]
        omega
      · rw [if_neg hindex]
        exact Or.inl rfl
  | remove index =>
      refine Or.inl ?_
      show view.content.Resized (((view.remove index).toOption.map (·.2)).getD view).content
      unfold TrackedList.remove
      cases hitem : view.items[index]? with
      | none => exact Or.inl rfl
      | some item =>
          have hindex := (List.getElem?_eq_some_iff.1 hitem).1
          refine Or.inr ⟨rfl, ?_⟩
          show view.items.length ≠ (view.items.eraseIdx index).length
          rw [List.length_eraseIdx_of_lt hindex]
          omega
  | set index item =>
      cases hprevious : view.items[index]? with
      | none => exact Or.inl (Or.inl (by simp [apply, TrackedList.set, hprevious, Except.toOption]))
      | some previous =>
          refine Or.inr ⟨index, item, previous, rfl, hprevious, ?_⟩
          simp [apply, TrackedList.set, hprevious, Except.toOption]
  | truncate length =>
      refine Or.inl ?_
      by_cases hlength : length < view.items.length
      · refine Or.inr ⟨by simp [apply, TrackedList.content, TrackedList.truncate, hlength], ?_⟩
        show view.items.length ≠ (view.items.take length).length
        rw [List.length_take]
        omega
      · have hall := List.take_of_length_le (Nat.le_of_not_lt hlength)
        exact Or.inl (by simp [apply, TrackedList.content, TrackedList.truncate, hlength, hall])
  | clear =>
      refine Or.inl ?_
      cases hitems : view.items with
      | nil => exact Or.inl (by simp [apply, TrackedList.content, TrackedList.clear, hitems])
      | cons first rest =>
          refine Or.inr ⟨by simp [apply, TrackedList.content, TrackedList.clear, hitems], ?_⟩
          simp [apply, TrackedList.content, TrackedList.clear, Value.size, hitems]

/-- The items of a changed list were there before or come from the change. -/
theorem mem_apply {change : ListChange} {item : Value} (h : item ∈ (change.apply view).items) :
    item ∈ view.items ∨ item ∈ change.values := by
  cases change with
  | push other => exact List.mem_append.1 h
  | extend items => exact List.mem_append.1 h
  | pop =>
      change item ∈ view.pop.2.items at h
      unfold TrackedList.pop at h
      split at h
      · exact Or.inl (List.dropLast_subset _ h)
      · exact Or.inl h
  | insert index other =>
      change item ∈ ((view.insert index other).toOption.getD view).items at h
      unfold TrackedList.insert at h
      split at h
      · rcases List.mem_append.1 h with hbefore | hbehind
        · exact Or.inl (List.mem_of_mem_take hbefore)
        · rcases List.mem_cons.1 hbehind with rfl | hbehind
          · exact Or.inr List.mem_cons_self
          · exact Or.inl (List.mem_of_mem_drop hbehind)
      · exact Or.inl h
  | remove index =>
      change item ∈ (((view.remove index).toOption.map (·.2)).getD view).items at h
      unfold TrackedList.remove at h
      split at h
      · exact Or.inl (List.mem_of_mem_eraseIdx h)
      · exact Or.inl h
  | set index other =>
      change item ∈ (((view.set index other).toOption.map (·.2)).getD view).items at h
      unfold TrackedList.set at h
      split at h
      · rcases List.mem_or_eq_of_mem_set h with hbefore | rfl
        · exact Or.inl hbefore
        · exact Or.inr List.mem_cons_self
      · exact Or.inl h
  | truncate length => exact Or.inl (List.mem_of_mem_take h)
  | clear => cases h

/-- Replacing an item by an equal one leaves all items alike. -/
theorem forall₂_set {items : List Value} {index : Nat} {previous item : Value}
    (hprevious : items[index]? = some previous) (hequal : previous.equals item = true) :
    List.Forall₂ Value.Alike items (items.set index item) := by
  obtain ⟨hindex, rfl⟩ := List.getElem?_eq_some_iff.1 hprevious
  obtain ⟨front, back, hitems, -, hset⟩ := @List.exists_of_set _ index item items hindex
  have hsame : ∀ others : List Value, List.Forall₂ Value.Alike others others :=
    fun others => List.forall₂_same.2 fun other _ => .refl other
  rw [hset]
  nth_rewrite 1 [hitems]
  exact List.rel_append (hsame front) (.cons (Or.inr hequal) (hsame back))

theorem kept_apply (hvalues : ∀ value ∈ change.values, value.KeyOrdered) (view : TrackedList) :
    view.content.Kept (change.apply view).content := by
  have hordered : view.content.value.KeyOrdered → (change.apply view).content.value.KeyOrdered := by
    intro hordered
    refine Value.itemsKeyOrdered_iff.2 fun item hitem => ?_
    exact (mem_apply hitem).elim (Value.itemsKeyOrdered_iff.1 hordered item) (hvalues item)
  rcases apply_cases view change with hresized | ⟨index, item, previous, -, hprevious, hafter⟩
  · exact hresized.kept hordered
  · refine ⟨?_, hordered, ?_⟩
    · intro hmarked
      rw [hafter]
      exact Bool.or_eq_true_iff.2 (Or.inl hmarked)
    · intro _ hunmarked
      rw [hafter] at hunmarked ⊢
      have hequal : (!previous.equals item) = false := (Bool.or_eq_false_iff.1 hunmarked).2
      exact .list (forall₂_set hprevious (by simpa using hequal))

theorem kept_foldl {changes : List ListChange}
    (hvalues : ∀ change ∈ changes, ∀ value ∈ change.values, value.KeyOrdered)
    (view : TrackedList) : view.content.Kept (changes.foldl apply view).content :=
  Content.kept_foldl (fun change hchange => kept_apply (hvalues change hchange)) view

end ListChange

/-! ## Mappings -/

namespace Entries

variable {κ α : Type} [DecidableEq κ]

theorem erase_eq_self {key : κ} {entries : List (κ × α)} (h : find? key entries = none) :
    erase key entries = entries := by
  induction entries with
  | nil => rfl
  | cons head rest ih =>
      obtain ⟨k, v⟩ := head
      rw [find?_cons] at h
      by_cases hk : key = k
      · rw [if_pos hk] at h
        cases h
      · rw [if_neg hk] at h
        unfold erase
        rw [if_neg hk, ih h]

theorem length_erase_le (key : κ) (entries : List (κ × α)) :
    (erase key entries).length ≤ entries.length := by
  induction entries with
  | nil => exact Nat.le_refl _
  | cons head rest ih =>
      unfold erase
      split
      · exact Nat.le_succ_of_le ih
      · exact Nat.succ_le_succ ih

theorem length_erase_lt {key : κ} {entries : List (κ × α)} (h : find? key entries ≠ none) :
    (erase key entries).length < entries.length := by
  induction entries with
  | nil => exact absurd rfl h
  | cons head rest ih =>
      obtain ⟨k, v⟩ := head
      rw [find?_cons] at h
      unfold erase
      by_cases hk : key = k
      · rw [if_pos hk]
        exact Nat.lt_succ_of_le (length_erase_le key rest)
      · rw [if_neg hk] at h ⊢
        exact Nat.succ_lt_succ (ih h)

theorem length_insert_of_find?_eq_none [KeyOrder κ] {key : κ} {entries : List (κ × α)}
    (h : find? key entries = none) (value : α) :
    (insert key value entries).length = entries.length + 1 := by
  induction entries with
  | nil => rfl
  | cons head rest ih =>
      obtain ⟨k, v⟩ := head
      rw [find?_cons] at h
      unfold insert
      by_cases hk : key = k
      · rw [if_pos hk] at h
        cases h
      · rw [if_neg hk] at h ⊢
        split
        · rfl
        · rw [List.length_cons, ih h, List.length_cons]

/-- In entries in key order, a new value of a key takes the place of the one before. -/
theorem Sorted.exists_replaced [KeyOrder κ] {key : κ} {old : α} {entries : List (κ × α)}
    (hsorted : Sorted entries) (hfind : find? key entries = some old) :
    ∃ front back, entries = front ++ (key, old) :: back ∧
      ∀ new, Entries.insert key new entries = front ++ (key, new) :: back := by
  induction entries with
  | nil => cases hfind
  | cons head rest ih =>
      obtain ⟨k, v⟩ := head
      rw [find?_cons] at hfind
      unfold Entries.insert
      by_cases hk : key = k
      · rw [if_pos hk] at hfind
        cases hfind
        refine ⟨[], rest, by rw [hk, List.nil_append], fun new => ?_⟩
        rw [if_pos hk, List.nil_append]
      · rw [if_neg hk] at hfind
        -- The key stands behind the first one, since it is among the others.
        have hbehind : KeyOrder.lt key k = false :=
          @Sorted.lt_eq_false_of_mem _ _ _ [] rest (k, v) (key, old) hsorted
            (List.mem_cons_of_mem _ (mem_of_find? hfind))
        obtain ⟨front, back, hentries, hinsert⟩ := ih (List.pairwise_cons.1 hsorted).2 hfind
        refine ⟨(k, v) :: front, back, by rw [hentries, List.cons_append], fun new => ?_⟩
        rw [if_neg hk, hbehind, if_neg Bool.false_ne_true, hinsert, List.cons_append]

end Entries

/-- The content of a mapping. -/
def TrackedMapping.content (view : TrackedMapping) : Content where
  value := .mapping view.entries
  marked := view.marked

/-- A change of a mapping in place. -/
inductive MappingChange where
  | insert (key : String) (value : Value)
  | remove (key : String)
  | extend (entries : List (String × Value))
  | clear

namespace MappingChange

/-- The values that come into the mapping. -/
def values : MappingChange → List Value
  | insert _ value => [value]
  | extend entries => entries.map (·.2)
  | remove _ | clear => []

/-- The mapping after the change. -/
def apply (view : TrackedMapping) : MappingChange → TrackedMapping
  | insert key value => (view.insert key value).2
  | remove key => (view.remove key).2
  | extend entries => view.extend entries
  | clear => view.clear

/-- Whether the change is a single one.  Storing the values of several keys may mark what ends as it was. -/
def IsSingle : MappingChange → Prop
  | extend _ => False
  | insert .. | remove _ | clear => True

variable {view : TrackedMapping} {change : MappingChange}

/-- All that a single change does to a mapping: it leaves the mapping, or marks it and makes it larger or
smaller, or it gives a key another value, where the mark goes by these two. -/
theorem apply_cases (hsingle : change.IsSingle) (view : TrackedMapping) :
    view.content.Resized (change.apply view).content ∨
      ∃ key value previous, change = .insert key value ∧
        Entries.find? key view.entries = some previous ∧ change.apply view = {
          entries := Entries.insert key value view.entries
          marked := view.marked || !previous.equals value } := by
  -- Only a value for a key that is there can change the mapping and keep its size.
  cases change with
  | extend entries => exact hsingle.elim
  | insert key value =>
      have hmarks : (apply view (.insert key value)).marked =
          (view.marked || !TrackedMapping.sameValue (Entries.find? key view.entries) value) := rfl
      cases hprevious : Entries.find? key view.entries with
      | none =>
          rw [hprevious] at hmarks
          refine Or.inl (Or.inr ⟨hmarks.trans (Bool.or_true _), ?_⟩)
          show view.entries.length ≠ (Entries.insert key value view.entries).length
          rw [Entries.length_insert_of_find?_eq_none hprevious]
          omega
      | some previous =>
          rw [hprevious] at hmarks
          refine Or.inr ⟨key, value, previous, rfl, hprevious, ?_⟩
          show ({ entries := _, marked := (apply view (.insert key value)).marked } : TrackedMapping) = _
          rw [hmarks]
          rfl
  | remove key =>
      refine Or.inl ?_
      show view.content.Resized (view.remove key).2.content
      cases hprevious : Entries.find? key view.entries with
      | none =>
          refine Or.inl ?_
          simp [TrackedMapping.content, TrackedMapping.remove, TrackedMapping.get?, hprevious,
            Entries.erase_eq_self]
      | some previous =>
          have hless : (Entries.erase key view.entries).length < view.entries.length :=
            Entries.length_erase_lt (by simp [hprevious])
          refine Or.inr ⟨?_, hless.ne'⟩
          simp [TrackedMapping.content, TrackedMapping.remove, TrackedMapping.get?, hprevious]
  | clear =>
      refine Or.inl ?_
      cases hentries : view.entries with
      | nil => exact Or.inl (by simp [apply, TrackedMapping.content, TrackedMapping.clear, hentries])
      | cons first rest =>
          refine Or.inr ⟨by simp [apply, TrackedMapping.content, TrackedMapping.clear, hentries], ?_⟩
          simp [apply, TrackedMapping.content, TrackedMapping.clear, Value.size, hentries]

/-- The entries of a changed mapping were there before or have values that come from the change. -/
theorem mem_apply (hsingle : change.IsSingle) {entry : String × Value}
    (h : entry ∈ (change.apply view).entries) : entry ∈ view.entries ∨ entry.2 ∈ change.values := by
  cases change with
  | extend entries => exact hsingle.elim
  | insert key value =>
      rcases Entries.mem_of_mem_insert h with rfl | hbefore
      · exact Or.inr List.mem_cons_self
      · exact Or.inl hbefore
  | remove key => exact Or.inl (Entries.mem_of_mem_erase h)
  | clear => cases h

theorem sorted_apply (hsingle : change.IsSingle) (h : Entries.Sorted view.entries) :
    Entries.Sorted (change.apply view).entries := by
  cases change with
  | extend entries => exact hsingle.elim
  | insert key value => exact h.insert key value
  | remove key => exact h.erase key
  | clear => exact List.Pairwise.nil

/-- In key order, replacing the value of a key by an equal one leaves all values alike. -/
theorem forall₂_insert {entries : List (String × Value)} (hsorted : Entries.Sorted entries) {key : String}
    {previous value : Value} (hprevious : Entries.find? key entries = some previous)
    (hequal : previous.equals value = true) :
    List.Forall₂ (fun x y => x.1 = y.1 ∧ x.2.Alike y.2) entries (Entries.insert key value entries) := by
  obtain ⟨front, back, hentries, hinsert⟩ := hsorted.exists_replaced hprevious
  have hsame : ∀ others : List (String × Value),
      List.Forall₂ (fun x y => x.1 = y.1 ∧ x.2.Alike y.2) others others :=
    fun others => List.forall₂_same.2 fun other _ => ⟨rfl, .refl other.2⟩
  rw [hinsert]
  nth_rewrite 1 [hentries]
  exact List.rel_append (hsame front) (.cons ⟨rfl, Or.inr hequal⟩ (hsame back))

theorem kept_of_single (hsingle : change.IsSingle) (hvalues : ∀ value ∈ change.values, value.KeyOrdered)
    (view : TrackedMapping) : view.content.Kept (change.apply view).content := by
  have hordered : view.content.value.KeyOrdered → (change.apply view).content.value.KeyOrdered := by
    rintro ⟨hsorted, hentries⟩
    refine ⟨sorted_apply hsingle hsorted, Value.entriesKeyOrdered_iff.2 fun entry hentry => ?_⟩
    exact (mem_apply hsingle hentry).elim (Value.entriesKeyOrdered_iff.1 hentries entry) (hvalues entry.2)
  rcases apply_cases hsingle view with hresized | ⟨key, value, previous, -, hprevious, hafter⟩
  · exact hresized.kept hordered
  · refine ⟨?_, hordered, ?_⟩
    · intro hmarked
      rw [hafter]
      exact Bool.or_eq_true_iff.2 (Or.inl hmarked)
    · rintro ⟨hsorted, -⟩ hunmarked
      rw [hafter] at hunmarked ⊢
      have hequal : (!previous.equals value) = false := (Bool.or_eq_false_iff.1 hunmarked).2
      exact .mapping (forall₂_insert hsorted hprevious (by simpa using hequal))

theorem kept_apply (hvalues : ∀ value ∈ change.values, value.KeyOrdered) (view : TrackedMapping) :
    view.content.Kept (change.apply view).content := by
  cases change with
  | extend entries =>
      -- Several values are stored one after the other.
      refine Content.kept_foldl (fun entry hentry view => ?_) view
      refine @kept_of_single (.insert entry.1 entry.2) trivial ?_ view
      intro value hvalue
      obtain rfl := List.mem_singleton.1 hvalue
      exact hvalues entry.2 (List.mem_map_of_mem hentry)
  | insert | remove | clear => exact kept_of_single (by trivial) hvalues view

theorem kept_foldl {changes : List MappingChange}
    (hvalues : ∀ change ∈ changes, ∀ value ∈ change.values, value.KeyOrdered)
    (view : TrackedMapping) : view.content.Kept (changes.foldl apply view).content :=
  Content.kept_foldl (fun change hchange => kept_apply (hvalues change hchange)) view

end MappingChange

/-! ## Sets -/

/-- The content of a set. -/
def TrackedSet.content (view : TrackedSet) : Content where
  value := .set view.members
  marked := view.marked

namespace TrackedSet

variable {before view after : TrackedSet}

/-- The set is the one before, or it is marked and larger. -/
def Grown (before after : TrackedSet) : Prop :=
  after = before ∨ after.marked = true ∧ before.members.length < after.members.length

theorem Grown.trans (h : before.Grown view) (hmore : view.Grown after) : before.Grown after := by
  rcases hmore with rfl | ⟨hmarked, hlength⟩
  · exact h
  · refine Or.inr ⟨hmarked, ?_⟩
    rcases h with rfl | ⟨-, hless⟩
    · exact hlength
    · exact hless.trans hlength

theorem grown_insert (view : TrackedSet) (value : Value) : view.Grown (view.insert value).2 := by
  unfold insert
  split
  · exact Or.inl rfl
  · refine Or.inr ⟨rfl, ?_⟩
    rw [List.length_append]
    exact Nat.lt_succ_self _

theorem grown_extend (view : TrackedSet) (values : List Value) : view.Grown (view.extend values) := by
  induction values generalizing view with
  | nil => exact Or.inl rfl
  | cons value rest ih => exact (view.grown_insert value).trans (ih (view.insert value).2)

end TrackedSet

/-- A change of a set in place. -/
inductive SetChange where
  | insert (value : Value)
  | remove (value : Value)
  | extend (values : List Value)
  | clear

namespace SetChange

/-- The values that come into the set. -/
def values : SetChange → List Value
  | insert value => [value]
  | extend values => values
  | remove _ | clear => []

/-- The set after the change. -/
def apply (view : TrackedSet) : SetChange → TrackedSet
  | insert value => (view.insert value).2
  | remove value => (view.remove value).2
  | extend values => view.extend values
  | clear => view.clear

variable {view : TrackedSet} {change : SetChange}

/-- All that a change does to a set: it leaves the set, or marks it and makes it larger or smaller. -/
theorem apply_resized (view : TrackedSet) (change : SetChange) :
    view.content.Resized (change.apply view).content := by
  have hgrown : ∀ {after : TrackedSet}, view.Grown after → view.content.Resized after.content := by
    rintro after (rfl | ⟨hmarked, hlength⟩)
    · exact Or.inl rfl
    · exact Or.inr ⟨hmarked, hlength.ne⟩
  cases change with
  | insert value => exact hgrown (view.grown_insert value)
  | extend values => exact hgrown (view.grown_extend values)
  | remove value =>
      show view.content.Resized (view.remove value).2.content
      unfold TrackedSet.remove
      cases hfound : view.members.findIdx? fun member => member.equals value with
      | none => exact Or.inl rfl
      | some index =>
          have hindex := (List.findIdx?_eq_some_iff_findIdx_eq.1 hfound).1
          refine Or.inr ⟨rfl, ?_⟩
          show view.members.length ≠ (view.members.eraseIdx index).length
          rw [List.length_eraseIdx_of_lt hindex]
          omega
  | clear =>
      cases hmembers : view.members with
      | nil => exact Or.inl (by simp [apply, TrackedSet.content, TrackedSet.clear, hmembers])
      | cons first rest =>
          refine Or.inr ⟨by simp [apply, TrackedSet.content, TrackedSet.clear, hmembers], ?_⟩
          simp [apply, TrackedSet.content, TrackedSet.clear, Value.size, hmembers]

theorem mem_insert {member value : Value} (h : member ∈ (view.insert value).2.members) :
    member ∈ view.members ∨ member = value := by
  unfold TrackedSet.insert at h
  split at h
  · exact Or.inl h
  · exact (List.mem_append.1 h).imp id List.mem_singleton.1

/-- The members of a changed set were there before or come from the change. -/
theorem mem_apply {member : Value} (h : member ∈ (change.apply view).members) :
    member ∈ view.members ∨ member ∈ change.values := by
  cases change with
  | insert value => exact (mem_insert h).imp id List.mem_singleton.2
  | extend values =>
      change member ∈ (view.extend values).members at h
      show member ∈ view.members ∨ member ∈ values
      induction values generalizing view with
      | nil => exact Or.inl h
      | cons value rest ih =>
          rcases ih h with hinserted | hrest
          · exact (mem_insert hinserted).imp id fun hsame => List.mem_cons.2 (Or.inl hsame)
          · exact Or.inr (List.mem_cons_of_mem _ hrest)
  | remove value =>
      change member ∈ (view.remove value).2.members at h
      unfold TrackedSet.remove at h
      split at h
      · exact Or.inl (List.mem_of_mem_eraseIdx h)
      · exact Or.inl h
  | clear => cases h

theorem kept_apply (hvalues : ∀ value ∈ change.values, value.KeyOrdered) (view : TrackedSet) :
    view.content.Kept (change.apply view).content := by
  refine (apply_resized view change).kept fun hordered => ?_
  refine Value.itemsKeyOrdered_iff.2 fun member hmember => ?_
  exact (mem_apply hmember).elim (Value.itemsKeyOrdered_iff.1 hordered member) (hvalues member)

theorem kept_foldl {changes : List SetChange}
    (hvalues : ∀ change ∈ changes, ∀ value ∈ change.values, value.KeyOrdered)
    (view : TrackedSet) : view.content.Kept (changes.foldl apply view).content :=
  Content.kept_foldl (fun change hchange => kept_apply (hvalues change hchange)) view

end SetChange

end RecordStore
