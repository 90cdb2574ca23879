import RecordStore.Proofs.Persistence.Runs
import RecordStore.Proofs.Scope.Reaching

/-!
# Lifecycles in a flush

Until a flush stages rows, no record gets any further in its lifecycle; when the flush succeeds, all of them
do (`Scope.flush_states`).  So a flush that fails brings no record back and takes none away.
-/

namespace RecordStore

namespace Scope

variable {env : Environment} {scope before after last : Scope} {handle : Handle}

theorem stateOf_eq_some {state : Lifecycle} : scope.stateOf handle = some state ↔
    ∃ entry, scope.entries[handle]? = some entry ∧ entry.state = state :=
  Option.map_eq_some_iff

theorem stateOf_eq_standing (scope : Scope) (handle : Handle) :
    scope.stateOf handle = (scope.standing handle).map (·.state) := by
  unfold stateOf standing
  rw [Option.map_map]
  rfl

/-- Every record stands where it stood in its lifecycle. -/
def SameStates (before after : Scope) : Prop :=
  ∀ handle, after.stateOf handle = before.stateOf handle

theorem SameStates.trans (h : before.SameStates after) (h' : after.SameStates last) :
    before.SameStates last := fun handle => (h' handle).trans (h handle)

theorem SameStates.of_same (h : after.entries = before.entries) : before.SameStates after := by
  intro handle
  unfold stateOf
  rw [h]

theorem Steady.sameStates (h : before.Steady env after) : before.SameStates after := by
  intro handle
  rw [stateOf_eq_standing, stateOf_eq_standing, h.standing handle]

theorem sameStates_giveKey (scope : Scope) (handle : Handle) (name : String) (id : Int64) :
    scope.SameStates (scope.giveKey handle name id) := by
  intro other
  unfold stateOf
  rw [getElem?_giveKey, Option.map_map]
  cases scope.entries[other]? with
  | none => rfl
  | some entry => by_cases hsame : handle = other <;> simp [hsame]

theorem assignId_states (scope : Scope) (env : Environment) (handle : Handle) :
    (assignId env handle).Ends scope (fun _ => scope.SameStates) scope.SameStates := by
  refine (assignId_outcome scope env handle).mono ?_ ?_
  · rintro _ _ (_ | ⟨entry, asked, sequence, current, id, -, -, hasked, -, -, -⟩)
    · exact .of_same rfl
    · refine (SameStates.of_same hasked.same.entries).trans ?_
      exact sameStates_giveKey (asked.advance sequence (current + 1)) handle _ id
  · rintro _ (_ | _ | ⟨_, _, -, -, hasked⟩ | ⟨_, _, _, _, -, -, hasked, -, -, -⟩)
    · exact .of_same rfl
    · exact .of_same rfl
    · exact .of_same hasked.same.entries
    · exact .of_same hasked.same.entries

theorem assignIds_states (env : Environment) (scope : Scope) :
    (assignIds env).Ends scope (fun _ => scope.SameStates) scope.SameStates := by
  refine ScopeM.ends_get_bind (ScopeM.ends_forM (.of_same rfl) ?_)
  intro handle _ middle hmiddle
  exact (assignId_states middle env handle).mono (fun _ _ hdone => hmiddle.trans hdone)
    fun _ hfailed => hmiddle.trans hfailed

/-- A flush takes every record further, or none. -/
theorem flush_states (env : Environment) (start : Scope) :
    (flush env).Ends start
      (fun _ after => ∀ handle, after.stateOf handle = (start.stateOf handle).map Lifecycle.afterFlush)
      start.SameStates := by
  unfold flush
  refine ScopeM.ends_bind (assignIds_states env start) ?_
  intro _ numbered hnumbered
  refine ScopeM.ends_bind ((resolveLinks_steady env numbered).mono
    (fun _ _ hdone => hnumbered.trans hdone.sameStates) fun _ hfailed => hnumbered.trans hfailed.sameStates) ?_
  intro _ filled hfilled
  refine ScopeM.ends_bind ((rowImages_made env filled).mono
    (fun _ _ hdone => hfilled.trans hdone.1.sameStates) fun _ hfailed => hfilled.trans hfailed.sameStates) ?_
  intro images made hmade
  refine ScopeM.ends_get_bind (ScopeM.ends_lift_bind (fun _ _ => ScopeM.ends_modify ?_) hmade)
  intro handle
  rw [← hmade handle, stateOf_eq_standing, standing_settle, stateOf_eq_standing, Option.map_map, Option.map_map]
  rfl

end Scope

end RecordStore
