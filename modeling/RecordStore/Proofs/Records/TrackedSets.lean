import Mathlib.Data.List.Induction
import Mathlib.Data.Set.Insert
import RecordStore.Proofs.Records.Changes
import RecordStore.Proofs.Value.Equivalence

/-!
# Tracked sets as mathematical sets

A tracked set keeps its members in a list.  As long as the list has no two equal members and all values are
proper, it stands for the set of the classes of its members, and each change of it does to this set what the
change of a mathematical set does (`TrackedSet.classes_apply`).  Its members stand in the order in which they
were inserted last (`TrackedSet.Ordered.apply`).  `tracked_set_is_set` puts this together for sequences of
changes.
-/

namespace RecordStore

namespace Value

variable {a b : Value} {items others : List Value}

/-! ## Classes of equal values -/

/-- The proper values that a value equals. -/
def eqClass (a : Value) : Set Value :=
  {b | b.isProper = true ∧ a.equals b = true}

theorem eqClass_eq_iff (ha : a.isProper = true) (hb : b.isProper = true) :
    a.eqClass = b.eqClass ↔ a.equals b = true := by
  constructor
  · intro h
    have hmem : b ∈ b.eqClass := ⟨hb, equals_refl hb⟩
    rw [← h] at hmem
    exact hmem.2
  · intro h
    have hback : b.equals a = true := (equals_comm hb ha).trans h
    ext c
    exact and_congr_right fun _ => ⟨equals_trans hback, equals_trans h⟩

/-- The classes of the given values. -/
def classes (items : List Value) : Set (Set Value) :=
  {c | ∃ item ∈ items, item.eqClass = c}

theorem eqClass_mem_classes (hitems : ∀ item ∈ items, item.isProper = true) (ha : a.isProper = true) :
    a.eqClass ∈ classes items ↔ a.isIn items = true := by
  rw [isIn_iff]
  refine exists_congr fun item => and_congr_right fun hitem => ?_
  exact eqClass_eq_iff (hitems item hitem) ha

theorem classes_append (items others : List Value) :
    classes (items ++ others) = classes items ∪ classes others := by
  ext c
  simp only [classes, List.mem_append, Set.mem_union, Set.mem_ofPred_eq, or_and_right, exists_or]

theorem classes_singleton (a : Value) : classes [a] = {a.eqClass} := by
  ext c
  simp [classes, eq_comm]

theorem isIn_append : a.isIn (items ++ others) = (a.isIn items || a.isIn others) :=
  List.any_append

/-! ## Lists without equal members -/

theorem isProper_set_append_singleton (h : (set items).isProper = true) (ha : a.isProper = true)
    (hnew : a.isIn items = false) : (set (items ++ [a])).isProper = true := by
  obtain ⟨hapart, hitems⟩ := isProper_set.1 h
  have hdiffer : ∀ item ∈ items, item.equals a = false := by
    intro item hitem
    exact Bool.eq_false_iff.2 (List.any_eq_false.1 hnew item hitem)
  refine isProper_set.2 ⟨List.pairwise_append.2 ⟨hapart, List.pairwise_singleton .., ?_⟩, ?_⟩
  · intro item hitem last hlast
    obtain rfl := List.mem_singleton.1 hlast
    exact ⟨hdiffer item hitem, (equals_comm ha (hitems item hitem)).trans (hdiffer item hitem)⟩
  · intro item hitem
    rcases List.mem_append.1 hitem with hbefore | hlast
    · exact hitems item hbefore
    · obtain rfl := List.mem_singleton.1 hlast
      exact ha

theorem isProper_set_sublist (h : (set items).isProper = true) (hsub : others.Sublist items) :
    (set others).isProper = true := by
  obtain ⟨hapart, hitems⟩ := isProper_set.1 h
  exact isProper_set.2 ⟨hapart.sublist hsub, fun item hitem => hitems item (hsub.subset hitem)⟩

/-- Where no two members are equal, at most one equals a value. -/
theorem eraseP_eq_filter (h : (set items).isProper = true) (ha : a.isProper = true) :
    items.eraseP (fun item => item.equals a) = items.filter fun item => !item.equals a := by
  induction items with
  | nil => rfl
  | cons first rest ih =>
      obtain ⟨hapart, hitems⟩ := isProper_set.1 h
      cases hfirst : first.equals a with
      | false =>
          have hrest := ih (isProper_set_sublist h (List.sublist_cons_self first rest))
          simp only [List.eraseP_cons, List.filter_cons, hfirst, hrest, cond_false, Bool.not_false,
            if_true]
      | true =>
          simp only [List.eraseP_cons, List.filter_cons, hfirst, cond_true, Bool.not_true,
            Bool.false_eq_true, if_false]
          refine (List.filter_eq_self.2 ?_).symm
          intro item hitem
          have hdiffer := ((List.pairwise_cons.1 hapart).1 item hitem).1
          rw [Bool.not_eq_true']
          refine Bool.eq_false_iff.2 fun hequal => ?_
          -- Both would equal the value, and so each other.
          have hsame := equals_trans hfirst
            ((equals_comm ha (hitems item (List.mem_cons_of_mem _ hitem))).trans hequal)
          rw [hdiffer] at hsame
          cases hsame

theorem classes_filter (hitems : ∀ item ∈ items, item.isProper = true) (ha : a.isProper = true) :
    classes (items.filter fun item => !item.equals a) = classes items \ {a.eqClass} := by
  ext c
  simp only [classes, List.mem_filter, Set.mem_sdiff, Set.mem_ofPred_eq, Set.mem_singleton_iff,
    Bool.not_eq_true']
  constructor
  · rintro ⟨item, ⟨hitem, hdiffer⟩, rfl⟩
    refine ⟨⟨item, hitem, rfl⟩, fun hsame => ?_⟩
    rw [(eqClass_eq_iff (hitems item hitem) ha).1 hsame] at hdiffer
    cases hdiffer
  · rintro ⟨⟨item, hitem, rfl⟩, hother⟩
    refine ⟨item, ⟨hitem, Bool.eq_false_iff.2 fun hequal => hother ?_⟩, rfl⟩
    exact (eqClass_eq_iff (hitems item hitem) ha).2 hequal

/-! ## The last and the first of equal items -/

/-- The items that no item behind them equals. -/
def lastOfEach : List Value → List Value
  | [] => []
  | item :: rest => if item.isIn rest then lastOfEach rest else item :: lastOfEach rest

/-- The items that no item before them equals. -/
def firstOfEach (items : List Value) : List Value :=
  (lastOfEach items.reverse).reverse

theorem lastOfEach_append_singleton (items : List Value) (a : Value) :
    lastOfEach (items ++ [a]) = (lastOfEach items).filter (fun item => !a.equals item) ++ [a] := by
  induction items with
  | nil => rfl
  | cons item rest ih =>
      have hbehind : item.isIn (rest ++ [a]) = (item.isIn rest || a.equals item) := by
        simp [isIn]
      rw [List.cons_append, lastOfEach, lastOfEach, hbehind, ih]
      cases item.isIn rest with
      | true => rfl
      | false => cases hequal : a.equals item <;> simp [hequal]

theorem lastOfEach_sublist (items : List Value) : (lastOfEach items).Sublist items := by
  induction items with
  | nil => exact .slnil
  | cons item rest ih =>
      unfold lastOfEach
      split
      · exact ih.cons item
      · exact ih.cons_cons item

theorem lastOfEach_eq_self (h : NoneEqual items) : lastOfEach items = items := by
  induction items with
  | nil => rfl
  | cons item rest ih =>
      obtain ⟨hfirst, hrest⟩ := List.pairwise_cons.1 h
      have hlast : item.isIn rest = false := List.any_eq_false.2 fun other hother => by
        simp [(hfirst other hother).2]
      rw [lastOfEach, hlast, ih hrest]
      rfl

theorem firstOfEach_append_singleton (items : List Value) (a : Value) :
    firstOfEach (items ++ [a]) =
      if a.isIn items then firstOfEach items else firstOfEach items ++ [a] := by
  have hbefore : a.isIn items.reverse = a.isIn items := List.any_reverse
  rw [firstOfEach, List.reverse_append, List.reverse_singleton, List.singleton_append, lastOfEach,
    hbefore]
  split
  · rfl
  · exact List.reverse_cons

/-- Each item is equaled by the first of its kind. -/
theorem isIn_firstOfEach (a : Value) (items : List Value) : a.isIn (firstOfEach items) = a.isIn items := by
  induction items using List.reverseRecOn with
  | nil => rfl
  | append_singleton items last ih =>
      rw [firstOfEach_append_singleton, isIn_append]
      cases hlast : last.isIn items with
      | false => rw [if_neg Bool.false_ne_true, isIn_append, ih]
      | true =>
          rw [if_pos rfl, ih]
          cases hmet : a.isIn [last] with
          | false => rw [Bool.or_false]
          | true =>
              -- What equals the last item equals what it equals.
              obtain ⟨_, hmem, hequal⟩ := isIn_iff.1 hmet
              obtain rfl := List.mem_singleton.1 hmem
              obtain ⟨item, hitem, hbefore⟩ := isIn_iff.1 hlast
              rw [isIn_iff.2 ⟨item, hitem, equals_trans hbefore hequal⟩]
              rfl

theorem distinct_eq_firstOfEach (items : List Value) : distinct items = firstOfEach items := by
  induction items using List.reverseRecOn with
  | nil => rfl
  | append_singleton items last ih =>
      have hstep : distinct (items ++ [last]) =
          if last.isIn (distinct items) then distinct items else distinct items ++ [last] := by
        unfold distinct
        rw [List.foldl_append]
        rfl
      rw [hstep, ih, isIn_firstOfEach, firstOfEach_append_singleton]

theorem isProper_set_firstOfEach (h : ∀ item ∈ items, item.isProper = true) :
    (set (firstOfEach items)).isProper = true := by
  induction items using List.reverseRecOn with
  | nil => rfl
  | append_singleton items last ih =>
      have hitems := ih fun item hitem => h item (List.mem_append_left _ hitem)
      rw [firstOfEach_append_singleton]
      split
      case isTrue => exact hitems
      case isFalse hnew =>
        refine isProper_set_append_singleton hitems (h last (by simp)) ?_
        rw [isIn_firstOfEach]
        exact Bool.eq_false_iff.2 hnew

end Value

/-! ## Single changes -/

namespace TrackedSet

variable {set : TrackedSet} {value : Value}

theorem insert_fst (set : TrackedSet) (value : Value) : (set.insert value).1 = !set.contains value := by
  unfold insert
  cases set.contains value <;> rfl

theorem insert_of_fst (h : (set.insert value).1 = false) : (set.insert value).2 = set := by
  rw [insert_fst, Bool.not_eq_false'] at h
  unfold insert
  rw [if_pos h]

theorem insert_members (set : TrackedSet) (value : Value) : (set.insert value).2.members =
    if value.isIn set.members then set.members else set.members ++ [value] := by
  unfold insert contains
  split <;> rfl

theorem remove_fst (set : TrackedSet) (value : Value) : (set.remove value).1 = set.contains value := by
  unfold remove contains Value.isIn
  rw [← List.findIdx?_isSome]
  split
  case h_1 index hindex => rw [hindex]; rfl
  case h_2 hnone => rw [hnone]; rfl

theorem remove_members (set : TrackedSet) (value : Value) : (set.remove value).2.members =
    set.members.eraseP fun member => member.equals value := by
  rw [List.eraseP_eq_eraseIdx]
  unfold remove
  split
  case h_1 index hindex => rw [hindex]
  case h_2 hnone => rw [hnone]

theorem isProper_insert (h : (Value.set set.members).isProper = true) (hvalue : value.isProper = true) :
    (Value.set (set.insert value).2.members).isProper = true := by
  rw [insert_members]
  split
  case isTrue => exact h
  case isFalse hnew =>
    exact Value.isProper_set_append_singleton h hvalue (Bool.eq_false_iff.2 hnew)

theorem isProper_remove (h : (Value.set set.members).isProper = true) (value : Value) :
    (Value.set (set.remove value).2.members).isProper = true := by
  rw [remove_members]
  exact Value.isProper_set_sublist h List.eraseP_sublist

theorem contains_iff (h : (Value.set set.members).isProper = true) (hvalue : value.isProper = true) :
    set.contains value = true ↔ value.eqClass ∈ Value.classes set.members :=
  (Value.eqClass_mem_classes (Value.isProper_set.1 h).2 hvalue).symm

theorem classes_insert (h : (Value.set set.members).isProper = true) (hvalue : value.isProper = true) :
    Value.classes (set.insert value).2.members =
      Insert.insert value.eqClass (Value.classes set.members) := by
  rw [insert_members]
  split
  case isTrue hthere => exact (Set.insert_eq_of_mem ((contains_iff h hvalue).1 hthere)).symm
  case isFalse hnew => rw [Value.classes_append, Value.classes_singleton, Set.union_singleton]

theorem classes_remove (h : (Value.set set.members).isProper = true) (hvalue : value.isProper = true) :
    Value.classes (set.remove value).2.members = Value.classes set.members \ {value.eqClass} := by
  rw [remove_members, Value.eraseP_eq_filter h hvalue,
    Value.classes_filter (Value.isProper_set.1 h).2 hvalue]

end TrackedSet

/-! ## Changes -/

namespace SetChange

/-- The values that a change names. -/
def arguments : SetChange → List Value
  | insert value => [value]
  | remove value => [value]
  | extend values => values
  | clear => []

/-- What a change does to a mathematical set of classes. -/
def act (held : Set (Set Value)) : SetChange → Set (Set Value)
  | insert value => Insert.insert value.eqClass held
  | remove value => held \ {value.eqClass}
  | extend values => held ∪ Value.classes values
  | clear => ∅

end SetChange

namespace TrackedSet

variable {set : TrackedSet} {value : Value} {values history : List Value} {change : SetChange}

/-- Adding several values joins their classes to those of the set. -/
theorem extend_spec (h : (Value.set set.members).isProper = true)
    (hvalues : ∀ value ∈ values, value.isProper = true) :
    (Value.set (set.extend values).members).isProper = true ∧
      Value.classes (set.extend values).members = Value.classes set.members ∪ Value.classes values := by
  induction values generalizing set with
  | nil =>
      refine ⟨h, ?_⟩
      show Value.classes set.members = _
      rw [← Value.classes_append, List.append_nil]
  | cons value rest ih =>
      have hvalue := hvalues value List.mem_cons_self
      obtain ⟨hproper, hclasses⟩ := ih (isProper_insert h hvalue)
        fun other hother => hvalues other (List.mem_cons_of_mem _ hother)
      refine ⟨hproper, ?_⟩
      show Value.classes ((set.insert value).2.extend rest).members = _
      rw [hclasses, classes_insert h hvalue, ← List.singleton_append, Value.classes_append,
        Value.classes_singleton, Set.insert_union, Set.union_left_comm, Set.singleton_union]

theorem isProper_apply (h : (Value.set set.members).isProper = true)
    (harguments : ∀ value ∈ change.arguments, value.isProper = true) :
    (Value.set (change.apply set).members).isProper = true := by
  cases change with
  | insert value => exact isProper_insert h (harguments value List.mem_cons_self)
  | remove value => exact isProper_remove h value
  | extend values => exact (extend_spec h harguments).1
  | clear => rfl

/-- A change does to the classes of a set what it does to a mathematical set. -/
theorem classes_apply (h : (Value.set set.members).isProper = true)
    (harguments : ∀ value ∈ change.arguments, value.isProper = true) :
    Value.classes (change.apply set).members = change.act (Value.classes set.members) := by
  cases change with
  | insert value => exact classes_insert h (harguments value List.mem_cons_self)
  | remove value => exact classes_remove h (harguments value List.mem_cons_self)
  | extend values => exact (extend_spec h harguments).2
  | clear =>
      refine Set.eq_empty_of_forall_notMem ?_
      rintro _ ⟨_, hnone, -⟩
      cases hnone

/-- The answer of an insertion tells whether the mathematical set grows. -/
theorem insert_fst_iff (h : (Value.set set.members).isProper = true) (hvalue : value.isProper = true) :
    (set.insert value).1 = true ↔
      (SetChange.insert value).act (Value.classes set.members) ≠ Value.classes set.members := by
  rw [insert_fst, Bool.not_eq_true', ← Bool.not_eq_true, contains_iff h hvalue]
  exact not_congr Set.insert_eq_self.symm

/-- The answer of a removal tells whether the mathematical set shrinks. -/
theorem remove_fst_iff (h : (Value.set set.members).isProper = true) (hvalue : value.isProper = true) :
    (set.remove value).1 = true ↔
      (SetChange.remove value).act (Value.classes set.members) ≠ Value.classes set.members := by
  rw [remove_fst, contains_iff h hvalue]
  constructor
  · intro hmem hsame
    rw [← hsame] at hmem
    exact hmem.2 rfl
  · intro hother
    by_contra hnone
    exact hother (Set.sdiff_singleton_eq_self hnone)

/-! ## The order of the members -/

/-- The values that are new when values are added one after the other. -/
def newAmong (set : TrackedSet) : List Value → List Value
  | [] => []
  | value :: rest =>
      (if (set.insert value).1 then [value] else []) ++ (set.insert value).2.newAmong rest

/-- The members are those values of a history that are still there, each where it came in last. -/
structure Ordered (set : TrackedSet) (history : List Value) : Prop where
  proper : (Value.set set.members).isProper = true
  history_proper : ∀ value ∈ history, value.isProper = true
  members_eq : set.members = (Value.lastOfEach history).filter set.contains

namespace Ordered

/-- A set is in the order in which it starts. -/
theorem start (h : (Value.set set.members).isProper = true) : set.Ordered set.members where
  proper := h
  history_proper := (Value.isProper_set.1 h).2
  members_eq := by
    obtain ⟨hapart, hmembers⟩ := Value.isProper_set.1 h
    rw [Value.lastOfEach_eq_self hapart]
    refine (List.filter_eq_self.2 ?_).symm
    intro member hmember
    exact Value.isIn_iff.2 ⟨member, hmember, Value.equals_refl (hmembers member hmember)⟩

theorem insert (h : set.Ordered history) (hvalue : value.isProper = true) :
    (set.insert value).2.Ordered (history ++ if (set.insert value).1 then [value] else []) := by
  cases hthere : set.contains value with
  | true =>
      have hnot : (set.insert value).1 = false := by rw [insert_fst, hthere, Bool.not_true]
      rw [insert_of_fst hnot, hnot, if_neg Bool.false_ne_true, List.append_nil]
      exact h
  | false =>
      have hmembers : (set.insert value).2.members = set.members ++ [value] := by
        rw [insert_members]
        exact if_neg (Bool.eq_false_iff.1 hthere)
      have hcontains : ∀ other, (set.insert value).2.contains other =
          (set.contains other || value.equals other) := by
        intro other
        unfold contains
        rw [hmembers, Value.isIn_append]
        simp [Value.isIn]
      rw [insert_fst, hthere, Bool.not_false, if_pos rfl]
      constructor
      case proper => exact isProper_insert h.proper hvalue
      case history_proper =>
        intro other hother
        rcases List.mem_append.1 hother with hbefore | hnew
        · exact h.history_proper other hbefore
        · obtain rfl := List.mem_singleton.1 hnew
          exact hvalue
      case members_eq =>
        -- Nothing that is still there equals the new value.
        have hkept : set.members.filter (fun member => !value.equals member) = set.members := by
          refine List.filter_eq_self.2 fun member hmember => ?_
          have hdiffer := Bool.eq_false_iff.2 (List.any_eq_false.1 hthere member hmember)
          rw [Value.equals_comm hvalue ((Value.isProper_set.1 h.proper).2 member hmember), hdiffer]
          rfl
        rw [hmembers, Value.lastOfEach_append_singleton, List.filter_append, List.filter_filter]
        congr 1
        · rw [← hkept, h.members_eq, List.filter_filter]
          refine List.filter_congr fun other _ => ?_
          rw [hcontains]
          cases value.equals other <;> simp
        · simp [hcontains, Value.equals_refl hvalue]

theorem extend (h : set.Ordered history) (hvalues : ∀ value ∈ values, value.isProper = true) :
    (set.extend values).Ordered (history ++ set.newAmong values) := by
  induction values generalizing set history with
  | nil =>
      rw [newAmong, List.append_nil]
      exact h
  | cons value rest ih =>
      rw [newAmong, ← List.append_assoc]
      exact ih (h.insert (hvalues value List.mem_cons_self))
        fun other hother => hvalues other (List.mem_cons_of_mem _ hother)

theorem remove (h : set.Ordered history) (hvalue : value.isProper = true) :
    (set.remove value).2.Ordered history where
  proper := isProper_remove h.proper value
  history_proper := h.history_proper
  members_eq := by
    have hmembers : (set.remove value).2.members =
        set.members.filter fun member => !member.equals value := by
      rw [remove_members, Value.eraseP_eq_filter h.proper hvalue]
    rw [hmembers, h.members_eq, List.filter_filter]
    refine List.filter_congr fun other hother => ?_
    have hproper := h.history_proper other ((Value.lastOfEach_sublist history).subset hother)
    rw [Bool.eq_iff_iff, contains_iff (isProper_remove h.proper value) hproper,
      classes_remove h.proper hvalue, Bool.and_eq_true, contains_iff h.proper hproper,
      Bool.not_eq_true', ← Bool.not_eq_true, ← Value.eqClass_eq_iff hproper hvalue]
    exact and_comm

theorem clear (h : set.Ordered history) : set.clear.Ordered history where
  proper := rfl
  history_proper := h.history_proper
  members_eq := (List.filter_eq_nil_iff.2 fun _ _ => Bool.false_ne_true).symm

end Ordered

end TrackedSet

namespace SetChange

/-- The values that a change inserts with success. -/
def inserted (set : TrackedSet) : SetChange → List Value
  | insert value => set.newAmong [value]
  | extend values => set.newAmong values
  | remove _ => []
  | clear => []

/-- The values that changes insert with success one after the other, in the order of time. -/
def insertions (set : TrackedSet) : List SetChange → List Value
  | [] => []
  | change :: rest => change.inserted set ++ insertions (change.apply set) rest

end SetChange

namespace TrackedSet

variable {set : TrackedSet} {history : List Value} {change : SetChange} {changes : List SetChange}

theorem Ordered.apply (h : set.Ordered history)
    (harguments : ∀ value ∈ change.arguments, value.isProper = true) :
    (change.apply set).Ordered (history ++ change.inserted set) := by
  cases change with
  | insert value =>
      rw [SetChange.inserted, newAmong, newAmong, List.append_nil]
      exact h.insert (harguments value List.mem_cons_self)
  | remove value =>
      rw [SetChange.inserted, List.append_nil]
      exact h.remove (harguments value List.mem_cons_self)
  | extend values => exact h.extend harguments
  | clear =>
      rw [SetChange.inserted, List.append_nil]
      exact h.clear

/-- A sequence of changes does the same to the tracked set and to the mathematical set, and the members stay
in order. -/
theorem foldl_apply (h : set.Ordered history)
    (hchanges : ∀ change ∈ changes, ∀ value ∈ change.arguments, value.isProper = true) :
    (changes.foldl SetChange.apply set).Ordered (history ++ SetChange.insertions set changes) ∧
      Value.classes (changes.foldl SetChange.apply set).members =
        changes.foldl SetChange.act (Value.classes set.members) := by
  induction changes generalizing set history with
  | nil =>
      rw [SetChange.insertions, List.append_nil]
      exact ⟨h, rfl⟩
  | cons change rest ih =>
      have harguments := hchanges change List.mem_cons_self
      obtain ⟨hordered, hclasses⟩ := ih (h.apply harguments)
        fun other hother => hchanges other (List.mem_cons_of_mem _ hother)
      rw [SetChange.insertions, ← List.append_assoc]
      refine ⟨hordered, ?_⟩
      rw [List.foldl_cons, List.foldl_cons, ← classes_apply h.proper harguments]
      exact hclasses

end TrackedSet

/-- Tracked sets are sets.  Take a set without two equal members and a sequence of changes, and let all
members and arguments be proper.  Afterwards no two members are equal; the set contains a value exactly when
the mathematical set does that goes through the same changes; inserting and removing a value tell whether
they change that set; and the members stand in the order in which they were inserted last.  A set that is
built of proper values holds the first of each group of equal ones, and no two equal members. -/
theorem tracked_set_is_set {start : TrackedSet} {changes : List SetChange}
    (hstart : (Value.set start.members).isProper = true)
    (hchanges : ∀ change ∈ changes, ∀ value ∈ change.arguments, value.isProper = true) :
    let set := changes.foldl SetChange.apply start
    let held := changes.foldl SetChange.act (Value.classes start.members)
    Value.NoneEqual set.members ∧
    (∀ value : Value, value.isProper = true →
      (set.contains value = true ↔ value.eqClass ∈ held) ∧
      ((set.insert value).1 = true ↔ (SetChange.insert value).act held ≠ held) ∧
      ((set.remove value).1 = true ↔ (SetChange.remove value).act held ≠ held)) ∧
    set.members = (Value.lastOfEach (start.members ++ SetChange.insertions start changes)).filter
      set.contains ∧
    ∀ items : List Value, (∀ item ∈ items, item.isProper = true) →
      Value.setOf items = .set (Value.firstOfEach items) ∧
      Value.frozenSetOf items = .frozenSet (Value.firstOfEach items) ∧
      Value.NoneEqual (Value.firstOfEach items) ∧
      ∀ item ∈ items, item.isIn (Value.firstOfEach items) = true := by
  intro set held
  obtain ⟨hordered, hclasses⟩ := TrackedSet.foldl_apply (TrackedSet.Ordered.start hstart) hchanges
  refine ⟨(Value.isProper_set.1 hordered.proper).1, ?_, hordered.members_eq, ?_⟩
  · intro value hvalue
    have hheld : held = Value.classes set.members := hclasses.symm
    rw [hheld]
    exact ⟨TrackedSet.contains_iff hordered.proper hvalue,
      TrackedSet.insert_fst_iff hordered.proper hvalue,
      TrackedSet.remove_fst_iff hordered.proper hvalue⟩
  · intro items hitems
    refine ⟨congrArg Value.set (Value.distinct_eq_firstOfEach items),
      congrArg Value.frozenSet (Value.distinct_eq_firstOfEach items),
      (Value.isProper_set.1 (Value.isProper_set_firstOfEach hitems)).1, ?_⟩
    intro item hitem
    rw [Value.isIn_firstOfEach]
    exact Value.isIn_iff.2 ⟨item, hitem, Value.equals_refl (hitems item hitem)⟩

/-- Two spellings of the decimal one. -/
def decimalOnes : List Value :=
  [.oneInTenths, .oneInHundredths]

/-- Numbers are put into a set and taken out of it; some of them are there already, and some come back. -/
def numbersComeAndGo : List SetChange := [
  .extend (.integer 2 :: decimalOnes), .remove (.integer 1), .insert (.float ⟨9223372036854775808⟩),
  .insert (.integer 1), .insert (.float ⟨0⟩), .remove (.integer 2), .insert (.integer 2)]

/-- Of equal numbers the first one is kept, and what came back stands at the end. -/
theorem tracked_set_is_set_of_numbers :
    let start : TrackedSet := { members := [.integer 1] }
    let set := numbersComeAndGo.foldl SetChange.apply start
    let held := numbersComeAndGo.foldl SetChange.act (Value.classes start.members)
    set.members.map Value.asInteger? = [none, none, some 1, some 2] ∧ Value.NoneEqual set.members ∧
      (∀ value ∈ decimalOnes, value.eqClass ∈ held ∧ (SetChange.insert value).act held = held) ∧
      Value.setOf decimalOnes = .set (Value.firstOfEach decimalOnes) ∧
      (Value.firstOfEach decimalOnes).length = 1 := by
  intro start set held
  have hproper : ∀ value ∈ decimalOnes, value.isProper = true := by decide +kernel
  have hmembers : set.members.map Value.asInteger? = [none, none, some 1, some 2] := by decide +kernel
  have hthere : ∀ value ∈ decimalOnes,
      set.contains value = true ∧ (set.insert value).1 = false := by decide +kernel
  have hone : (Value.firstOfEach decimalOnes).length = 1 := by decide +kernel
  obtain ⟨hapart, hvalues, -, hsets⟩ :=
    @tracked_set_is_set start numbersComeAndGo (by decide +kernel) (by decide +kernel)
  refine ⟨hmembers, hapart, ?_, (hsets decimalOnes hproper).1, hone⟩
  intro value hvalue
  obtain ⟨hcontains, hinsert, -⟩ := hvalues value (hproper value hvalue)
  refine ⟨hcontains.1 (hthere value hvalue).1, ?_⟩
  by_contra hgrown
  have hnew := hinsert.2 hgrown
  rw [(hthere value hvalue).2] at hnew
  cases hnew

end RecordStore
