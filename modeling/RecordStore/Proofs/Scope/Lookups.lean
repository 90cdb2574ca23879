import RecordStore.Proofs.Scope.Keeping

/-!
# Looking records up

All ways to look records up keep a scope sound (`Scope.lookable_soundReady`).  A row that is visible is
found by its key if it can be loaded (`Scope.find_visible`).
-/

namespace RecordStore

namespace Scope

variable {α β : Type} {env : Environment} {history : History} {scope : Scope} {handle : Handle}
  {model : Model}

/-! ## Actions that keep scopes sound -/

/-- An action that keeps scopes sound, however it ends. -/
def Keeps (env : Environment) (history : History) (action : ScopeM α) : Prop :=
  ∀ scope : Scope, scope.SoundReady env history →
    action.Ends scope (fun _ => SoundReady env history) (SoundReady env history)

theorem keeps_flush (hregistry : env.registry.Consistent)
    (hcount : ∀ model ∈ env.registry.models, model.columns.length < 4294967296) :
    Keeps env history (flush env) :=
  fun _ h => (flush_ends hregistry hcount h).mono (fun _ _ hdone => hdone.1)
    fun _ hfailed => hfailed

/-! ## By key -/

theorem lookUpRow_visible {table : String} {id : UInt64} {row : Option StoredRow}
    (hrow : scope.visibleRow env table id = .ok row) :
    (lookUpRow env table id).Ends scope (fun found after => scope.Follows after ∧ found = row)
      (fun _ => False) := by
  unfold lookUpRow
  refine ScopeM.ends_get_bind ?_
  by_cases hstaged : (scope.staged.find? (table, id)).isSome = true
  · rw [if_pos hstaged, hrow]
    exact ⟨.refl scope, rfl⟩
  · rw [if_neg hstaged, hrow]
    exact ⟨follows_consulted scope true, rfl⟩

theorem find_visible (hregistry : env.registry.Consistent) (h : scope.SoundReady env history)
    (hmodel : model ∈ env.registry.models) {id : Int64} (hid : 0 ≤ id.toInt) {row : StoredRow}
    (hrow : scope.visibleRow env model.tableName id.toUInt64 = .ok (some row))
    (hnone : scope.identity.find? (model.name, id) = none) :
    (find env model.name id).Ends scope
      (fun handle after => model.CanLoad row ∧ after.SoundReady env history ∧
        after.staged = scope.staged ∧
        ∃ entry, after.entries[handle]? = some entry ∧ entry.state = .persistent ∧
          entry.record.model = model ∧ entry.record.id = some id ∧ entry.record.changed = ∅)
      (fun _ => ¬model.CanLoad row) := by
  unfold find
  refine ScopeM.ends_lift_bind_of_ok (hregistry.model_eq_ok.2 ⟨hmodel, rfl⟩) ?_
  refine ScopeM.ends_get_bind ?_
  have hpositive : ¬id.toInt < 0 := by omega
  rw [hnone]
  simp only [if_neg hpositive]
  refine ScopeM.ends_bind ((lookUpRow_visible hrow).mono (fun _ _ hdone => hdone)
    fun _ hfailed => hfailed.elim) ?_
  rintro _ after ⟨hfollows, rfl⟩
  refine (materialize_ends hregistry (h.of_follows hfollows) hmodel hid ?_ ?_).mono ?_
    fun _ hfailed => hfailed.1
  · rw [hfollows.visibleRow]
    exact hrow
  · rw [hfollows.identity]
    exact hnone
  · rintro handle last ⟨hcan, hlast, hstaged, hentry⟩
    exact ⟨hcan, hlast, hstaged.trans hfollows.staged, hentry⟩

/-! ## All look-ups -/

/-- Sound scopes are kept by all ways to look records up. -/
theorem lookable_soundReady (hregistry : env.registry.Consistent)
    (hcount : ∀ model ∈ env.registry.models, model.columns.length < 4294967296)
    (history : History) : Lookable env (SoundReady env history) where
  consulted scope h := h.of_follows (follows_consulted scope true)
  flush := keeps_flush hregistry hcount
  materialize h hmodel hid hrow hnone :=
    (materialize_ends hregistry h hmodel hid hrow hnone).mono
      (fun _ _ hdone => ⟨hdone.2.1, hdone.2.2.1⟩) fun _ hfailed => hfailed.2 ▸ h

end Scope

end RecordStore
