import Mathlib.Data.List.Forall2
import RecordStore.Error

/-!
# Results that may be failures

What the success of a composed computation says about its parts.
-/

namespace RecordStore

variable {ε α β : Type}

/-- A sequence succeeds exactly when its first part does and what follows on that result. -/
theorem bind_eq_ok {x : Except ε α} {f : α → Except ε β} {b : β} :
    x >>= f = .ok b ↔ ∃ a, x = .ok a ∧ f a = .ok b := by
  cases x with
  | error e =>
      constructor
      · intro h
        cases h
      · rintro ⟨a, ha, -⟩
        cases ha
  | ok a =>
      constructor
      · intro h
        exact ⟨a, rfl, h⟩
      · rintro ⟨a', ha, h⟩
        cases ha
        exact h

/-- A sequence fails exactly when its first part does, or what follows on the result of that. -/
theorem bind_eq_error {x : Except ε α} {f : α → Except ε β} {e : ε} :
    x >>= f = .error e ↔ x = .error e ∨ ∃ a, x = .ok a ∧ f a = .error e := by
  cases x with
  | error e' =>
      constructor
      · intro h
        cases h
        exact Or.inl rfl
      · rintro (h | ⟨a, ha, -⟩)
        · cases h
          rfl
        · cases ha
  | ok a =>
      constructor
      · intro h
        exact Or.inr ⟨a, rfl, h⟩
      · rintro (h | ⟨a', ha, h⟩)
        · cases h
        · cases ha
          exact h

/-- What is viewed, changed and put back. -/
theorem bind_map_eq_ok {γ : Type} {view : Except ε α} {f : α → Except ε β} {put : β → γ} {c : γ} :
    (view >>= fun a => f a >>= fun b => pure (put b)) = .ok c ↔
      ∃ a b, view = .ok a ∧ f a = .ok b ∧ put b = c := by
  constructor
  · intro h
    obtain ⟨a, ha, h⟩ := bind_eq_ok.1 h
    obtain ⟨b, hb, h⟩ := bind_eq_ok.1 h
    exact ⟨a, b, ha, hb, Except.ok.inj h⟩
  · rintro ⟨a, b, rfl, hb, rfl⟩
    exact bind_eq_ok.2 ⟨a, rfl, bind_eq_ok.2 ⟨b, hb, rfl⟩⟩

theorem toOption_eq_some {x : Except ε α} {a : α} : x.toOption = some a ↔ x = .ok a := by
  cases x with
  | error e => simp [Except.toOption]
  | ok b => simp [Except.toOption]

theorem toOption_eq_none {x : Except ε α} : x.toOption = none ↔ ∃ e, x = .error e := by
  cases x with
  | error e => simp [Except.toOption]
  | ok b => simp [Except.toOption]

theorem join_toOption_eq_some {x : Except ε (Option α)} {a : α} :
    x.toOption.join = some a ↔ x = .ok (some a) := by
  cases x with
  | error e => simp [Except.toOption]
  | ok b => simp [Except.toOption]

theorem pure_eq_ok {a b : α} : (pure a : Except ε α) = .ok b ↔ a = b := by
  constructor
  · intro h
    cases h
    rfl
  · rintro rfl
    rfl

theorem ofData_eq_ok {x : Except DataFault α} {a : α} : Error.ofData x = .ok a ↔ x = .ok a := by
  cases x with
  | error fault => simp [Error.ofData]
  | ok b => simp [Error.ofData]

/-! ## Failures told in another way -/

theorem mapError_eq_ok {ε' : Type} {f : ε → ε'} {x : Except ε α} {a : α} :
    x.mapError f = .ok a ↔ x = .ok a := by
  cases x with
  | error e => simp [Except.mapError]
  | ok b => simp [Except.mapError]

theorem mapError_bind {ε' : Type} {f : ε → ε'} {x : Except ε α} {g : α → Except ε β} :
    (x >>= g).mapError f = x.mapError f >>= fun a => (g a).mapError f := by
  cases x with
  | error e => rfl
  | ok a => rfl

/-! ## Lists -/

/-- What every successful step keeps holds at the end of a successful fold. -/
theorem foldlM_invariant {f : β → α → Except ε β} {P : β → Prop} {xs : List α} {start result : β}
    (hstep : ∀ x ∈ xs, ∀ b b', P b → f b x = .ok b' → P b') (hstart : P start)
    (h : xs.foldlM f start = .ok result) : P result := by
  induction xs generalizing start with
  | nil =>
      cases h
      exact hstart
  | cons x xs ih =>
      rw [List.foldlM_cons] at h
      obtain ⟨next, hnext, h⟩ := bind_eq_ok.1 h
      exact ih (fun y hy => hstep y (List.mem_cons_of_mem _ hy))
        (hstep x List.mem_cons_self start next hstart hnext) h

/-- What a successful fold establishes for each member holds at the end, when later steps keep it. -/
theorem foldlM_of_mem {f : β → α → Except ε β} {P : β → Prop} {Q : α → β → Prop} {xs : List α}
    {start result : β} (hstart : P start)
    (hstep : ∀ x ∈ xs, ∀ b b', P b → f b x = .ok b' → P b' ∧ Q x b')
    (hkeep : ∀ x ∈ xs, ∀ y ∈ xs, ∀ b b', f b x = .ok b' → Q y b → Q y b')
    (h : xs.foldlM f start = .ok result) : ∀ x ∈ xs, Q x result := by
  induction xs generalizing start with
  | nil =>
      intro _ hnone
      cases hnone
  | cons x xs ih =>
      rw [List.foldlM_cons] at h
      obtain ⟨next, hnext, hlater⟩ := bind_eq_ok.1 h
      have hfirst := hstep x List.mem_cons_self start next hstart hnext
      intro y hy
      rcases List.mem_cons.1 hy with rfl | hrest
      · -- The rest of the fold keeps what the first step has established.
        refine @foldlM_invariant ε α β f (Q y) xs next result ?_ hfirst.2 hlater
        intro z hz b b' hb hstepped
        exact hkeep z (List.mem_cons_of_mem _ hz) y hy b b' hstepped hb
      · refine ih hfirst.1 ?_ ?_ hlater y hrest
        · intro z hz
          exact hstep z (List.mem_cons_of_mem _ hz)
        · intro z hz w hw
          exact hkeep z (List.mem_cons_of_mem _ hz) w (List.mem_cons_of_mem _ hw)

/-- What a successful fold says of each member. -/
theorem foldlM_each {f : β → α → Except ε β} {P : β → Prop} {Q : α → Prop} {xs : List α}
    {start result : β} (hstart : P start)
    (hstep : ∀ x ∈ xs, ∀ b b', P b → f b x = .ok b' → P b' ∧ Q x)
    (h : xs.foldlM f start = .ok result) : ∀ x ∈ xs, Q x :=
  foldlM_of_mem hstart hstep (fun _ _ _ _ _ _ _ hkept => hkept) h

/-- A fold whose steps all succeed, as long as something holds that they keep, succeeds. -/
theorem exists_foldlM {f : β → α → Except ε β} {P : β → Prop} {xs : List α} {start : β}
    (hstep : ∀ x ∈ xs, ∀ b, P b → ∃ b', f b x = .ok b' ∧ P b') (hstart : P start) :
    ∃ result, xs.foldlM f start = .ok result ∧ P result := by
  induction xs generalizing start with
  | nil => exact ⟨start, rfl, hstart⟩
  | cons x xs ih =>
      obtain ⟨next, hnext, hkept⟩ := hstep x List.mem_cons_self start hstart
      obtain ⟨result, hresult, hend⟩ := ih (fun y hy => hstep y (List.mem_cons_of_mem _ hy)) hkept
      exact ⟨result, by rw [List.foldlM_cons, hnext]; exact hresult, hend⟩

/-- Results of a successful traversal stand side by side with what they come from. -/
theorem mapM_eq_ok {f : α → Except ε β} {xs : List α} {ys : List β} :
    xs.mapM f = .ok ys ↔ List.Forall₂ (fun x y => f x = .ok y) xs ys := by
  induction xs generalizing ys with
  | nil =>
      rw [List.mapM_nil, pure_eq_ok, List.forall₂_nil_left_iff, eq_comm]
  | cons x xs ih =>
      rw [List.mapM_cons, bind_eq_ok]
      constructor
      · rintro ⟨y, hy, h⟩
        obtain ⟨rest, hrest, h⟩ := bind_eq_ok.1 h
        obtain rfl := pure_eq_ok.1 h
        exact List.Forall₂.cons hy (ih.1 hrest)
      · intro h
        cases h with
        | cons hy hrest => exact ⟨_, hy, bind_eq_ok.2 ⟨_, ih.2 hrest, rfl⟩⟩

/-- A traversal succeeds exactly when it does at every member. -/
theorem exists_mapM_eq_ok {f : α → Except ε β} {xs : List α} :
    (∃ ys, xs.mapM f = .ok ys) ↔ ∀ x ∈ xs, ∃ y, f x = .ok y := by
  induction xs with
  | nil => simp [pure_eq_ok]
  | cons x xs ih =>
      rw [List.forall_mem_cons, ← ih]
      constructor
      · rintro ⟨ys, h⟩
        rw [List.mapM_cons] at h
        obtain ⟨y, hy, h⟩ := bind_eq_ok.1 h
        obtain ⟨rest, hrest, -⟩ := bind_eq_ok.1 h
        exact ⟨⟨y, hy⟩, rest, hrest⟩
      · rintro ⟨⟨y, hy⟩, rest, hrest⟩
        refine ⟨y :: rest, ?_⟩
        rw [List.mapM_cons]
        exact bind_eq_ok.2 ⟨y, hy, bind_eq_ok.2 ⟨rest, hrest, rfl⟩⟩

end RecordStore
