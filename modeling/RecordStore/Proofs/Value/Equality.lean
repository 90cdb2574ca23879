import Mathlib.Data.List.Forall2
import RecordStore.Proofs.Value.ScalarEquality

/-!
# Equality of containers

What `Value.equals` says of containers, in terms of their items, and that it is transitive
(`Value.equals_trans`), although it is neither reflexive nor, where sets repeat members, symmetric.

Values are alike (`Value.Alike`) when they are the same or equal, and alike item by item
(`Value.AlikeItems`) when they are the same, or lists or mappings whose items are alike, each at its
place.
-/

namespace RecordStore

namespace Value

variable {a b c : Value}

/-! ## Items of containers -/

theorem equalsItems_iff {xs ys : List Value} :
    equalsItems xs ys = true ↔ List.Forall₂ (fun x y => x.equals y = true) xs ys := by
  induction xs generalizing ys with
  | nil => cases ys <;> simp [equalsItems]
  | cons x xs ih => cases ys <;> simp [equalsItems, ih]

theorem equaledByItems_iff {xs ys : List Value} :
    equaledByItems xs ys = true ↔ List.Forall₂ (fun x y => x.equaledBy y = true) xs ys := by
  induction xs generalizing ys with
  | nil => cases ys <;> simp [equaledByItems]
  | cons x xs ih => cases ys <;> simp [equaledByItems, ih]

theorem equalsEntries_iff {xs ys : List (String × Value)} :
    equalsEntries xs ys = true ↔
      List.Forall₂ (fun x y => x.1 = y.1 ∧ x.2.equals y.2 = true) xs ys := by
  induction xs generalizing ys with
  | nil => cases ys <;> simp [equalsEntries]
  | cons x xs ih => cases ys <;> simp [equalsEntries, ih]

theorem equaledByEntries_iff {xs ys : List (String × Value)} :
    equaledByEntries xs ys = true ↔
      List.Forall₂ (fun x y => y.1 = x.1 ∧ x.2.equaledBy y.2 = true) xs ys := by
  induction xs generalizing ys with
  | nil => cases ys <;> simp [equaledByEntries]
  | cons x xs ih => cases ys <;> simp [equaledByEntries, ih]

theorem allMetIn_iff {xs ys : List Value} :
    allMetIn xs ys = true ↔ ∀ x ∈ xs, ∃ y ∈ ys, x.equaledBy y = true := by
  induction xs with
  | nil => simp [allMetIn]
  | cons x xs ih => simp [allMetIn, ih]

theorem someEquals_iff {xs : List Value} {y : Value} :
    someEquals xs y = true ↔ ∃ x ∈ xs, x.equals y = true := by
  induction xs with
  | nil => simp [someEquals]
  | cons x xs ih => simp [someEquals, ih]

/-! ## Sides -/

/-- Lists whose members are related stand in the opposite relation the other way round. -/
theorem forall₂_comm_of_mem {α β : Type} {r : α → β → Prop} {s : β → α → Prop} {xs : List α}
    {ys : List β} (h : ∀ x ∈ xs, ∀ y ∈ ys, (r x y ↔ s y x)) :
    List.Forall₂ r xs ys ↔ List.Forall₂ s ys xs := by
  induction xs generalizing ys with
  | nil => cases ys <;> simp
  | cons x xs ih =>
      cases ys with
      | nil => simp
      | cons y ys =>
          rw [List.forall₂_cons, List.forall₂_cons, h x List.mem_cons_self y List.mem_cons_self,
            ih fun x' hx y' hy => h x' (List.mem_cons_of_mem _ hx) y' (List.mem_cons_of_mem _ hy)]

theorem sizeOf_lt_of_mem_entries {entry : String × Value} {entries : List (String × Value)}
    (h : entry ∈ entries) : sizeOf entry.2 < sizeOf entries := by
  have hentry := List.sizeOf_lt_of_mem h
  obtain ⟨key, value⟩ := entry
  rw [Prod.mk.sizeOf_spec] at hentry
  show sizeOf value < sizeOf entries
  omega

/-- Being equaled is equality read from the other side. -/
theorem equaledBy_eq_equals (a b : Value) : a.equaledBy b = b.equals a := by
  induction hsize : sizeOf a + sizeOf b using Nat.strong_induction_on generalizing a b with
  | _ n ih =>
    subst hsize
    -- Members of both sides are smaller than the values themselves.
    have hitems : ∀ xs ys : List Value, sizeOf xs < sizeOf a → sizeOf ys < sizeOf b →
        ∀ x ∈ xs, ∀ y ∈ ys, x.equaledBy y = y.equals x ∧ y.equaledBy x = x.equals y := by
      intro xs ys hxs hys x hx y hy
      have hx' := List.sizeOf_lt_of_mem hx
      have hy' := List.sizeOf_lt_of_mem hy
      exact ⟨ih _ (by omega) x y rfl, ih _ (by omega) y x rfl⟩
    have hlists : ∀ xs ys : List Value, sizeOf xs < sizeOf a → sizeOf ys < sizeOf b →
        equaledByItems xs ys = equalsItems ys xs := by
      intro xs ys hxs hys
      rw [Bool.eq_iff_iff, equaledByItems_iff, equalsItems_iff]
      exact forall₂_comm_of_mem fun x hx y hy => by rw [(hitems xs ys hxs hys x hx y hy).1]
    have hsets : ∀ xs ys : List Value, sizeOf xs < sizeOf a → sizeOf ys < sizeOf b →
        (ys.length == xs.length && ys.all fun y => someEquals xs y) =
          (ys.length == xs.length && allMetIn ys xs) := by
      intro xs ys hxs hys
      refine congrArg (_ && ·) (Bool.eq_iff_iff.2 ?_)
      rw [List.all_eq_true, allMetIn_iff]
      refine forall₂_congr fun y hy => ?_
      rw [someEquals_iff]
      refine exists_congr fun x => and_congr_right fun hx => ?_
      rw [(hitems xs ys hxs hys x hx y hy).2]
    cases a with
    | list xs =>
        cases b with
        | list ys => exact hlists xs ys (by simp) (by simp)
        | _ => rfl
    | tuple xs =>
        cases b with
        | tuple ys => exact hlists xs ys (by simp) (by simp)
        | _ => rfl
    | set xs =>
        cases b with
        | set ys => exact hsets xs ys (by simp) (by simp)
        | _ => rfl
    | frozenSet xs =>
        cases b with
        | frozenSet ys => exact hsets xs ys (by simp) (by simp)
        | _ => rfl
    | mapping xs =>
        cases b with
        | mapping ys =>
            show equaledByEntries xs ys = equalsEntries ys xs
            rw [Bool.eq_iff_iff, equaledByEntries_iff, equalsEntries_iff]
            refine forall₂_comm_of_mem fun x hx y hy => and_congr_right fun _ => ?_
            have hx' := sizeOf_lt_of_mem_entries hx
            have hy' := sizeOf_lt_of_mem_entries hy
            rw [ih _ (by simp only [mapping.sizeOf_spec]; omega) x.2 y.2 rfl]
        | _ => rfl
    | _ => cases b <;> rfl

/-! ## Containers -/

theorem equals_sets_iff {xs ys : List Value} :
    (xs.length == ys.length && allMetIn xs ys) = true ↔
      xs.length = ys.length ∧ ∀ x ∈ xs, ∃ y ∈ ys, y.equals x = true := by
  simp only [Bool.and_eq_true, beq_iff_eq, allMetIn_iff, equaledBy_eq_equals]

/-- What equals a scalar is a scalar. -/
theorem containerKind?_of_equalsScalar (h : equalsScalar a b = true) : b.containerKind? = none := by
  unfold equalsScalar at h
  split at h <;> first | rfl | cases h

theorem forall₂_trans_of_mem {α : Type} {r : α → α → Prop} {xs ys zs : List α}
    (hxy : List.Forall₂ r xs ys) (hyz : List.Forall₂ r ys zs)
    (h : ∀ x ∈ xs, ∀ y ∈ ys, ∀ z ∈ zs, r x y → r y z → r x z) : List.Forall₂ r xs zs := by
  induction hxy generalizing zs with
  | nil => exact hyz
  | @cons x y xs ys hfirst _ ih =>
      cases hyz with
      | @cons _ z _ zs hsecond hrest =>
          refine .cons (h x List.mem_cons_self y List.mem_cons_self z List.mem_cons_self hfirst
            hsecond) (ih hrest ?_)
          intro x' hx y' hy z' hz
          exact h x' (List.mem_cons_of_mem _ hx) y' (List.mem_cons_of_mem _ hy) z'
            (List.mem_cons_of_mem _ hz)

/-- Equality is transitive.  Sets are compared with the sides changed, so the induction is on the three
values together. -/
theorem equals_trans (h : a.equals b = true) (h' : b.equals c = true) : a.equals c = true := by
  induction hsize : sizeOf a + sizeOf b + sizeOf c using Nat.strong_induction_on
    generalizing a b c with
  | _ n ih =>
    subst hsize
    have hlists : ∀ xs ys zs : List Value, sizeOf xs < sizeOf a → sizeOf ys < sizeOf b →
        sizeOf zs < sizeOf c → equalsItems xs ys = true → equalsItems ys zs = true →
          equalsItems xs zs = true := by
      intro xs ys zs hxs hys hzs hxy hyz
      rw [equalsItems_iff] at hxy hyz ⊢
      refine forall₂_trans_of_mem hxy hyz fun x hx y hy z hz hfirst hsecond => ?_
      have hx' := List.sizeOf_lt_of_mem hx
      have hy' := List.sizeOf_lt_of_mem hy
      have hz' := List.sizeOf_lt_of_mem hz
      exact ih _ (by omega) hfirst hsecond rfl
    -- One of the second set equals the member of the first, and one of the third equals that one in turn.
    have hsets : ∀ xs ys zs : List Value, sizeOf xs < sizeOf a → sizeOf ys < sizeOf b →
        sizeOf zs < sizeOf c → (xs.length == ys.length && allMetIn xs ys) = true →
          (ys.length == zs.length && allMetIn ys zs) = true →
            (xs.length == zs.length && allMetIn xs zs) = true := by
      intro xs ys zs hxs hys hzs hxy hyz
      rw [equals_sets_iff] at hxy hyz ⊢
      refine ⟨hxy.1.trans hyz.1, fun x hx => ?_⟩
      obtain ⟨y, hy, hyx⟩ := hxy.2 x hx
      obtain ⟨z, hz, hzy⟩ := hyz.2 y hy
      have hx' := List.sizeOf_lt_of_mem hx
      have hy' := List.sizeOf_lt_of_mem hy
      have hz' := List.sizeOf_lt_of_mem hz
      exact ⟨z, hz, ih _ (by omega) hzy hyx rfl⟩
    cases a with
    | list xs =>
        cases b with
        | list ys =>
            cases c with
            | list zs => exact hlists xs ys zs (by simp) (by simp) (by simp) h h'
            | _ => cases h'
        | _ => cases h
    | tuple xs =>
        cases b with
        | tuple ys =>
            cases c with
            | tuple zs => exact hlists xs ys zs (by simp) (by simp) (by simp) h h'
            | _ => cases h'
        | _ => cases h
    | set xs =>
        cases b with
        | set ys =>
            cases c with
            | set zs => exact hsets xs ys zs (by simp) (by simp) (by simp) h h'
            | _ => cases h'
        | _ => cases h
    | frozenSet xs =>
        cases b with
        | frozenSet ys =>
            cases c with
            | frozenSet zs => exact hsets xs ys zs (by simp) (by simp) (by simp) h h'
            | _ => cases h'
        | _ => cases h
    | mapping xs =>
        cases b with
        | mapping ys =>
            cases c with
            | mapping zs =>
                replace h : equalsEntries xs ys = true := h
                replace h' : equalsEntries ys zs = true := h'
                show equalsEntries xs zs = true
                rw [equalsEntries_iff] at h h' ⊢
                refine forall₂_trans_of_mem h h' fun x hx y hy z hz hfirst hsecond => ?_
                have hx' := sizeOf_lt_of_mem_entries hx
                have hy' := sizeOf_lt_of_mem_entries hy
                have hz' := sizeOf_lt_of_mem_entries hz
                refine ⟨hfirst.1.trans hsecond.1, ?_⟩
                exact ih _ (by simp only [mapping.sizeOf_spec]; omega) hfirst.2 hsecond.2 rfl
            | _ => cases h'
        | _ => cases h
    | _ =>
        rw [equals_of_scalar (by rfl)] at h ⊢
        rw [equals_of_scalar (containerKind?_of_equalsScalar h)] at h'
        exact equalsScalar_trans h h'

/-! ## Values that are alike -/

/-- The values are the same, bit for bit, or equal. -/
def Alike (a b : Value) : Prop :=
  a = b ∨ a.equals b = true

theorem Alike.refl (a : Value) : a.Alike a := Or.inl rfl

theorem Alike.trans (h : a.Alike b) (h' : b.Alike c) : a.Alike c := by
  rcases h with rfl | h
  · exact h'
  · rcases h' with rfl | h'
    · exact Or.inr h
    · exact Or.inr (equals_trans h h')

/-- The values are the same, or their items are alike, each with the one at its place. -/
inductive AlikeItems : Value → Value → Prop where
  | same (a : Value) : AlikeItems a a
  | list {xs ys : List Value} : List.Forall₂ Alike xs ys → AlikeItems (.list xs) (.list ys)
  | mapping {xs ys : List (String × Value)} :
      List.Forall₂ (fun x y => x.1 = y.1 ∧ x.2.Alike y.2) xs ys →
      AlikeItems (.mapping xs) (.mapping ys)

theorem AlikeItems.typeName_eq (h : a.AlikeItems b) : a.typeName = b.typeName := by
  cases h <;> rfl

theorem AlikeItems.trans (h : a.AlikeItems b) (h' : b.AlikeItems c) : a.AlikeItems c := by
  cases h with
  | same => exact h'
  | list h =>
      cases h' with
      | same => exact .list h
      | list h' =>
          exact .list (forall₂_trans_of_mem h h' fun _ _ _ _ _ _ => Alike.trans)
  | mapping h =>
      cases h' with
      | same => exact .mapping h
      | mapping h' =>
          exact .mapping (forall₂_trans_of_mem h h' fun _ _ _ _ _ _ hfirst hsecond =>
            ⟨hfirst.1.trans hsecond.1, hfirst.2.trans hsecond.2⟩)

end Value

end RecordStore
