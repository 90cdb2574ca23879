import RecordStore.Proofs.Value.Equality

/-!
# Value equality as an equivalence

A value is proper (`Value.isProper`) when it holds no not-a-number and no set with two equal members, at
any depth.  On proper values equality is reflexive, symmetric and transitive, and sets are equal when they
have the same members (`Value.equality_is_equivalence`).

Sets are compared from one side only, besides their lengths.  That this is symmetric rests on counting:
different members of one side are met by different ones of the other (`all_met`).
-/

namespace RecordStore

/-- When each item of a list meets an item of another one, and no two of them meet the same, then the
other list is no shorter; and when it is no longer either, each of its items is met. -/
theorem all_met {α β : Type} {r : α → β → Prop} {xs : List α} {ys : List β}
    (hmeets : ∀ x ∈ xs, ∃ y ∈ ys, r x y)
    (hapart : xs.Pairwise fun x x' => ∀ y ∈ ys, r x y → ¬r x' y) :
    xs.length ≤ ys.length ∧ (ys.length ≤ xs.length → ∀ y ∈ ys, ∃ x ∈ xs, r x y) := by
  induction xs generalizing ys with
  | nil =>
      refine ⟨Nat.zero_le _, ?_⟩
      intro hlength y hy
      rw [List.eq_nil_of_length_eq_zero (Nat.le_zero.1 hlength)] at hy
      cases hy
  | cons x xs ih =>
      obtain ⟨hfirst, hothers⟩ := List.pairwise_cons.1 hapart
      obtain ⟨y, hy, hxy⟩ := hmeets x List.mem_cons_self
      obtain ⟨before, behind, rfl⟩ := List.append_of_mem hy
      have hcases : ∀ y', y' ∈ before ++ y :: behind ↔ y' = y ∨ y' ∈ before ++ behind := by
        intro y'
        simp only [List.mem_append, List.mem_cons]
        tauto
      -- The others meet what is left without `y`, since `y` is met by the first one.
      have hleft : ∀ x' ∈ xs, ∃ y' ∈ before ++ behind, r x' y' := by
        intro x' hx'
        obtain ⟨y', hy', hmet⟩ := hmeets x' (List.mem_cons_of_mem _ hx')
        rcases (hcases y').1 hy' with rfl | hother
        · exact absurd hmet (hfirst x' hx' y' hy hxy)
        · exact ⟨y', hother, hmet⟩
      obtain ⟨hle, hall⟩ := ih hleft (hothers.imp fun h y' hy' => h y' ((hcases y').2 (Or.inr hy')))
      simp only [List.length_append, List.length_cons] at hle hall ⊢
      refine ⟨by omega, ?_⟩
      intro hlength y' hy'
      rcases (hcases y').1 hy' with rfl | hother
      · exact ⟨x, List.mem_cons_self, hxy⟩
      · obtain ⟨x', hx', hmet⟩ := hall (by omega) y' hother
        exact ⟨x', List.mem_cons_of_mem _ hx', hmet⟩

namespace Value

variable {a b : Value} {xs ys items : List Value}

/-! ## Proper values -/

/-- No two of the values are equal, whichever of them stands on the left. -/
def NoneEqual (values : List Value) : Prop :=
  values.Pairwise fun x y => x.equals y = false ∧ y.equals x = false

instance : DecidablePred NoneEqual := fun values =>
  inferInstanceAs (Decidable (values.Pairwise _))

mutual

/-- Whether the value holds no not-a-number and no set with two equal members, at any depth. -/
def isProper : Value → Bool
  | float x => !x.isNaN
  | list items => itemsProper items
  | mapping entries => entriesProper entries
  | tuple items => itemsProper items
  | set members => decide (NoneEqual members) && itemsProper members
  | frozenSet members => decide (NoneEqual members) && itemsProper members
  | _ => true
termination_by structural value => value

/-- Whether all items of a container are proper. -/
def itemsProper : List Value → Bool
  | [] => true
  | x :: xs => isProper x && itemsProper xs
termination_by structural items => items

/-- Whether all values of a mapping are proper. -/
def entriesProper : List (String × Value) → Bool
  | [] => true
  | (_, x) :: xs => isProper x && entriesProper xs
termination_by structural entries => entries

end

theorem itemsProper_iff : itemsProper items = true ↔ ∀ item ∈ items, item.isProper = true := by
  induction items with
  | nil => simp [itemsProper]
  | cons x xs ih => simp [itemsProper, ih]

theorem entriesProper_iff {entries : List (String × Value)} :
    entriesProper entries = true ↔ ∀ entry ∈ entries, entry.2.isProper = true := by
  induction entries with
  | nil => simp [entriesProper]
  | cons x xs ih => simp [entriesProper, ih]

theorem isProper_list : (list items).isProper = true ↔ ∀ item ∈ items, item.isProper = true :=
  itemsProper_iff

theorem isProper_tuple : (tuple items).isProper = true ↔ ∀ item ∈ items, item.isProper = true :=
  itemsProper_iff

theorem isProper_mapping {entries : List (String × Value)} :
    (mapping entries).isProper = true ↔ ∀ entry ∈ entries, entry.2.isProper = true :=
  entriesProper_iff

theorem isProper_set :
    (set items).isProper = true ↔ NoneEqual items ∧ ∀ item ∈ items, item.isProper = true := by
  rw [isProper, Bool.and_eq_true, decide_eq_true_iff, itemsProper_iff]

theorem isProper_frozenSet :
    (frozenSet items).isProper = true ↔ NoneEqual items ∧ ∀ item ∈ items, item.isProper = true :=
  isProper_set

/-! ## Reflexivity -/

theorem equals_refl (h : a.isProper = true) : a.equals a = true := by
  induction hsize : sizeOf a using Nat.strong_induction_on generalizing a with
  | _ n ih =>
    subst hsize
    have hitem : ∀ items : List Value, sizeOf items < sizeOf a →
        (∀ item ∈ items, item.isProper = true) → ∀ item ∈ items, item.equals item = true := by
      intro items hitems hproper item hitem
      have hsize := List.sizeOf_lt_of_mem hitem
      exact ih _ (by omega) (hproper item hitem) rfl
    cases a with
    | list items =>
        exact equalsItems_iff.2 (List.forall₂_same.2 (hitem items (by simp) (isProper_list.1 h)))
    | tuple items =>
        exact equalsItems_iff.2 (List.forall₂_same.2 (hitem items (by simp) (isProper_tuple.1 h)))
    | set members =>
        refine equals_sets_iff.2 ⟨rfl, fun x hx => ⟨x, hx, ?_⟩⟩
        exact hitem members (by simp) (isProper_set.1 h).2 x hx
    | frozenSet members =>
        refine equals_sets_iff.2 ⟨rfl, fun x hx => ⟨x, hx, ?_⟩⟩
        exact hitem members (by simp) (isProper_frozenSet.1 h).2 x hx
    | mapping entries =>
        refine equalsEntries_iff.2 (List.forall₂_same.2 fun entry hentry => ⟨rfl, ?_⟩)
        have hsize := sizeOf_lt_of_mem_entries hentry
        exact ih _ (by simp only [mapping.sizeOf_spec]; omega) (isProper_mapping.1 h entry hentry) rfl
    | float x =>
        have hnumber : x.isNaN = false := by simpa [isProper] using h
        exact Float64.equals_iff.2 ⟨hnumber, hnumber, Or.inl rfl⟩
    | decimal d => exact Decimal.equals_iff.2 ⟨rfl, Or.inl rfl⟩
    | _ => simp [equals, equalsScalar]

/-! ## Symmetry -/

theorem isIn_iff : a.isIn items = true ↔ ∃ item ∈ items, item.equals a = true :=
  List.any_eq_true

/-- Different members of one list that are all met in another one leave no room there for other members. -/
theorem members_met (hapart : NoneEqual xs) (hcomm : ∀ x ∈ xs, ∀ y ∈ ys, x.equals y = y.equals x)
    (hmet : ∀ x ∈ xs, ∃ y ∈ ys, y.equals x = true) :
    xs.length ≤ ys.length ∧ (ys.length ≤ xs.length → ∀ y ∈ ys, ∃ x ∈ xs, x.equals y = true) := by
  have hdifferent : xs.Pairwise fun x x' => ∀ y ∈ ys, y.equals x = true → ¬y.equals x' = true := by
    refine hapart.imp_of_mem ?_
    rintro x x' hx - ⟨hdiffer, -⟩ y hy hyx hyx'
    -- Two members that meet the same one would be equal.
    have hsame := equals_trans ((hcomm x hx y hy).trans hyx) hyx'
    rw [hdiffer] at hsame
    cases hsame
  obtain ⟨hle, hall⟩ := all_met hmet hdifferent
  refine ⟨hle, fun hlength y hy => ?_⟩
  obtain ⟨x, hx, hyx⟩ := hall hlength y hy
  exact ⟨x, hx, (hcomm x hx y hy).trans hyx⟩

theorem equals_sets_symm (hapart : NoneEqual xs) (hcomm : ∀ x ∈ xs, ∀ y ∈ ys, x.equals y = y.equals x)
    (h : (xs.length == ys.length && allMetIn xs ys) = true) :
    (ys.length == xs.length && allMetIn ys xs) = true := by
  obtain ⟨hlength, hmet⟩ := equals_sets_iff.1 h
  exact equals_sets_iff.2 ⟨hlength.symm, (members_met hapart hcomm hmet).2 hlength.ge⟩

theorem equals_comm_of_scalar (h : a.containerKind? = none) (b : Value) : a.equals b = b.equals a := by
  cases b with
  | list | mapping | tuple | set | frozenSet =>
      -- A scalar and a container are never equal.
      cases a with
      | list | mapping | tuple | set | frozenSet => cases h
      | _ => rfl
  | _ =>
      rw [equals_of_scalar h, equals_of_scalar rfl, Bool.eq_iff_iff]
      exact ⟨equalsScalar_symm, equalsScalar_symm⟩

/-- On proper values it does not matter which one stands on the left. -/
theorem equals_comm (ha : a.isProper = true) (hb : b.isProper = true) : a.equals b = b.equals a := by
  induction hsize : sizeOf a + sizeOf b using Nat.strong_induction_on generalizing a b with
  | _ n ih =>
    subst hsize
    have hitems : ∀ xs ys : List Value, sizeOf xs < sizeOf a → sizeOf ys < sizeOf b →
        (∀ x ∈ xs, x.isProper = true) → (∀ y ∈ ys, y.isProper = true) →
          ∀ x ∈ xs, ∀ y ∈ ys, x.equals y = y.equals x := by
      intro xs ys hxs hys hpx hpy x hx y hy
      have hx' := List.sizeOf_lt_of_mem hx
      have hy' := List.sizeOf_lt_of_mem hy
      exact ih _ (by omega) (hpx x hx) (hpy y hy) rfl
    have hlists : ∀ xs ys : List Value, sizeOf xs < sizeOf a → sizeOf ys < sizeOf b →
        (∀ x ∈ xs, x.isProper = true) → (∀ y ∈ ys, y.isProper = true) →
          equalsItems xs ys = equalsItems ys xs := by
      intro xs ys hxs hys hpx hpy
      rw [Bool.eq_iff_iff, equalsItems_iff, equalsItems_iff]
      exact forall₂_comm_of_mem fun x hx y hy => by rw [hitems xs ys hxs hys hpx hpy x hx y hy]
    -- Neither set repeats a member, so with as many members they meet both ways when they meet one way.
    have hsets : ∀ xs ys : List Value, sizeOf xs < sizeOf a → sizeOf ys < sizeOf b →
        (NoneEqual xs ∧ ∀ x ∈ xs, x.isProper = true) → (NoneEqual ys ∧ ∀ y ∈ ys, y.isProper = true) →
          (xs.length == ys.length && allMetIn xs ys) = (ys.length == xs.length && allMetIn ys xs) := by
      intro xs ys hxs hys hpx hpy
      have hcomm := hitems xs ys hxs hys hpx.2 hpy.2
      rw [Bool.eq_iff_iff]
      exact ⟨equals_sets_symm hpx.1 hcomm,
        equals_sets_symm hpy.1 fun y hy x hx => (hcomm x hx y hy).symm⟩
    cases a with
    | list xs =>
        cases b with
        | list ys => exact hlists xs ys (by simp) (by simp) (isProper_list.1 ha) (isProper_list.1 hb)
        | _ => rfl
    | tuple xs =>
        cases b with
        | tuple ys => exact hlists xs ys (by simp) (by simp) (isProper_tuple.1 ha) (isProper_tuple.1 hb)
        | _ => rfl
    | set xs =>
        cases b with
        | set ys => exact hsets xs ys (by simp) (by simp) (isProper_set.1 ha) (isProper_set.1 hb)
        | _ => rfl
    | frozenSet xs =>
        cases b with
        | frozenSet ys =>
            exact hsets xs ys (by simp) (by simp) (isProper_frozenSet.1 ha) (isProper_frozenSet.1 hb)
        | _ => rfl
    | mapping xs =>
        cases b with
        | mapping ys =>
            show equalsEntries xs ys = equalsEntries ys xs
            rw [Bool.eq_iff_iff, equalsEntries_iff, equalsEntries_iff]
            refine forall₂_comm_of_mem fun x hx y hy => ?_
            have hx' := sizeOf_lt_of_mem_entries hx
            have hy' := sizeOf_lt_of_mem_entries hy
            rw [ih _ (by simp only [mapping.sizeOf_spec]; omega) (isProper_mapping.1 ha x hx)
              (isProper_mapping.1 hb y hy) rfl, eq_comm]
        | _ => rfl
    | _ => exact equals_comm_of_scalar rfl b

/-- A set that repeats a member may equal another one that does not equal it. -/
example : (set [.integer 1, .integer 1]).equals (set [.integer 1, .integer 2]) = true ∧
    (set [.integer 1, .integer 2]).equals (set [.integer 1, .integer 1]) = false := by
  decide +kernel

/-! ## Equivalence -/

/-- Sets are equal exactly when the members of each are members of the other. -/
theorem equals_sets_iff_mem (hxs : (set xs).isProper = true) (hys : (set ys).isProper = true) :
    (xs.length == ys.length && allMetIn xs ys) = true ↔
      (∀ x ∈ xs, x.isIn ys = true) ∧ ∀ y ∈ ys, y.isIn xs = true := by
  obtain ⟨hapart, hpx⟩ := isProper_set.1 hxs
  obtain ⟨hapart', hpy⟩ := isProper_set.1 hys
  have hcomm : ∀ x ∈ xs, ∀ y ∈ ys, x.equals y = y.equals x :=
    fun x hx y hy => equals_comm (hpx x hx) (hpy y hy)
  simp only [isIn_iff, equals_sets_iff]
  constructor
  · rintro ⟨hlength, hmet⟩
    exact ⟨hmet, (members_met hapart hcomm hmet).2 hlength.ge⟩
  · rintro ⟨hmet, hmet'⟩
    have hle := (members_met hapart hcomm hmet).1
    have hge := (members_met hapart' (fun y hy x hx => (hcomm x hx y hy).symm) hmet').1
    exact ⟨Nat.le_antisymm hle hge, hmet⟩

end Value

/-- A value without a not-a-number and without a set that has two equal members. -/
abbrev ProperValue : Type := { value : Value // value.isProper = true }

namespace Value

/-- Equality of proper values is an equivalence, and sets of either kind are equal exactly when all members
of each occur in the other, in whatever order they stand. -/
theorem equality_is_equivalence :
    Equivalence (fun a b : ProperValue => a.val.equals b.val = true) ∧
    ∀ xs ys : List Value, (set xs).isProper = true → (set ys).isProper = true →
      ((set xs).equals (set ys) = true ↔
        (∀ x ∈ xs, x.isIn ys = true) ∧ ∀ y ∈ ys, y.isIn xs = true) ∧
      ((frozenSet xs).equals (frozenSet ys) = true ↔
        (∀ x ∈ xs, x.isIn ys = true) ∧ ∀ y ∈ ys, y.isIn xs = true) := by
  constructor
  · constructor
    case refl => exact fun a => equals_refl a.property
    case symm => exact fun {a b} h => (equals_comm b.property a.property).trans h
    case trans => exact equals_trans
  · intro xs ys hxs hys
    exact ⟨equals_sets_iff_mem hxs hys, equals_sets_iff_mem hxs hys⟩

/-- The decimal one with one digit behind the point. -/
def oneInTenths : Value :=
  .decimal { negative := false, mantissa := 10, scale := 1 }

/-- The decimal one with two digits behind the point. -/
def oneInHundredths : Value :=
  .decimal { negative := false, mantissa := 100, scale := 2 }

/-- A number and a list with a zero and a set of texts and decimals. -/
def mixedMembers : List Value := [
  .integer 1, .list [.float ⟨0⟩, .set [oneInTenths, .text "a"]]]

/-- The same members in another order, with a negative zero and another scale. -/
def mixedMembersAgain : List Value := [
  .list [.float ⟨9223372036854775808⟩, .set [.text "a", oneInHundredths]], .integer 1]

/-- The two sets are equal, since each holds the members of the other. -/
theorem equality_is_equivalence_of_mixed :
    (set mixedMembers).isProper = true ∧ (set mixedMembersAgain).isProper = true ∧
      (set mixedMembers).equals (set mixedMembersAgain) = true ∧
      (frozenSet mixedMembers).equals (frozenSet mixedMembersAgain) = true := by
  have hproper : (set mixedMembers).isProper = true := by decide +kernel
  have hproper' : (set mixedMembersAgain).isProper = true := by decide +kernel
  have hmet : (∀ x ∈ mixedMembers, x.isIn mixedMembersAgain = true) ∧
      ∀ y ∈ mixedMembersAgain, y.isIn mixedMembers = true := by
    decide +kernel
  obtain ⟨hset, hfrozen⟩ := equality_is_equivalence.2 _ _ hproper hproper'
  exact ⟨hproper, hproper', hset.2 hmet, hfrozen.2 hmet⟩

end Value

end RecordStore
