import RecordStore.Proofs.Persistence.Runs
import RecordStore.Proofs.Scope.Assigning
import RecordStore.Proofs.Scope.Lookups

/-!
# Acts

An act in a sound scope leaves a sound scope, with a history that is longer by the act
(`Act.perform_ends`). While an act goes on, the records that were new at its start may be inserted
at any time (`Journal.during`); afterwards the journal says when it happened, so that the scope is
sound with the history of the journal again (`Run.OpenSound.act`).
-/

namespace RecordStore

/-! ## Histories of journals -/

namespace Journal

/-- What the journal says of the open scope. -/
def history (journal : Journal) (clock : Supply) : History where
  clock
  last handle column := Entries.find? (handle, column) journal.assigned
  born handle n := ∃ first last, (handle, first, last) ∈ journal.inserted ∧ first ≤ n ∧ n ≤ last

@[simp]
theorem history_last (journal : Journal) (clock : Supply) (handle : Handle) (column : String) :
    (journal.history clock).last handle column = Entries.find? (handle, column) journal.assigned :=
  rfl

/-- The history while an act goes on that has started in a scope. -/
def during (journal : Journal) (clock : Supply) (start : Scope) : History where
  clock
  last := (journal.history clock).last
  born handle n := (journal.history clock).born handle n ∨
    start.stateOf handle = some .pending ∧ start.supply.drawn ≤ n

end Journal

namespace ScopeM

theorem ends_discard {α : Type} {action : ScopeM α} {start : Scope} {kept failed : Scope → Prop}
    (h : action.Ends start (fun _ => kept) failed) :
    (discard action).Ends start (fun _ => kept) failed := by
  have hbind : (discard action : ScopeM PUnit) = action >>= fun _ => pure PUnit.unit := by
    unfold discard
    rw [LawfulFunctor.map_const, bind_pure_comp]
    rfl
  rw [hbind]
  exact ends_bind h fun _ _ hafter => hafter

end ScopeM

/-- Acts that look records up, or flush as many look-ups do. -/
def Act.LooksUp : Act → Prop
  | .find .. | .all .. | .findAll .. | .findFirst .. | .findOne .. | .findSession .. | .related ..
  | .backReference .. | .flush => True
  | .create .. | .assign .. | .setReference .. | .delete .. => False

/-- What every look-up keeps is kept by such an act. -/
theorem Act.keeps_of_looksUp {env : Environment} {kept : Scope → Prop} (h : Scope.Lookable env kept)
    (hregistry : env.registry.Consistent) {act : Act} (hact : act.LooksUp) :
    (act.perform env).Keeps kept := by
  intro scope hscope
  cases act with
  | create | assign | setReference | delete => exact hact.elim
  | find model id => exact ScopeM.ends_discard (h.keeps_find hregistry model id scope hscope)
  | all model => exact ScopeM.ends_discard (h.keeps_select hregistry model none scope hscope)
  | findAll model attr value =>
      exact ScopeM.ends_discard (h.keeps_select hregistry model _ scope hscope)
  | findFirst model attr value =>
      exact ScopeM.ends_discard (h.keeps_findFirst hregistry model attr value scope hscope)
  | findOne model attr value =>
      exact ScopeM.ends_discard (h.keeps_findOne hregistry model attr value scope hscope)
  | findSession key => exact ScopeM.ends_discard (h.keeps_findSession hregistry key scope hscope)
  | related handle field =>
      exact ScopeM.ends_discard (h.keeps_related hregistry handle field scope hscope)
  | backReference handle name =>
      exact ScopeM.ends_discard (h.keeps_backReference hregistry handle name scope hscope)
  | flush => exact h.flush scope hscope

variable {env : Environment} {journal : Journal} {clock : Supply} {scope after : Scope}

namespace Journal

/-- At the start of an act all new records may be inserted from now on. -/
theorem soundReady_during (h : scope.Sound env (journal.history clock)) :
    scope.SoundReady env (journal.during clock scope) := by
  refine ⟨h.of_history rfl (fun _ _ => rfl) fun _ _ _ _ n _ hn => Or.inl hn, ?_⟩
  intro handle entry hentry hpending n hn
  refine Or.inr ⟨?_, hn⟩
  unfold Scope.stateOf
  rw [hentry, Option.map_some, hpending]

theorem noteInserts_eq {before last : Database} (hbefore : before.scope = some scope)
    (hlast : last.scope = some after) (journal : Journal) :
    journal.noteInserts before last =
      { journal with inserted := ((scope.newlyStored after).map fun handle =>
          (handle, before.supply.drawn, last.supply.drawn)) ++ journal.inserted } := by
  unfold noteInserts
  rw [hbefore, hlast]

theorem mem_newlyStored {before : Scope} {handle : Handle}
    (hbefore : before.stateOf handle = some .pending)
    (hafter : after.stateOf handle = some .persistent) :
    handle ∈ before.newlyStored after := by
  have hlt : handle < before.entries.length := by
    unfold Scope.stateOf at hbefore
    rcases Option.map_eq_some_iff.1 hbefore with ⟨entry, hentry, -⟩
    exact (List.getElem?_eq_some_iff.1 hentry).1
  refine List.mem_filter.2 ⟨List.mem_range.2 hlt, ?_⟩
  simp only [hbefore, hafter, and_self, decide_true]

/-- After an act the journal says when records were inserted. -/
theorem sound_noteInserts {before last : Database} (hbefore : before.scope = some scope)
    (hlast : last.scope = some after) (hsupply : last.supply = after.supply)
    (h : after.Sound env (journal.during clock { scope with supply := before.supply })) :
    after.Sound env ((journal.noteInserts before last).history clock) := by
  rw [noteInserts_eq hbefore hlast]
  -- Only what is said of insertions has changed, and only stored records are affected by it.
  refine h.of_history rfl (fun _ _ => rfl) ?_
  intro handle entry hentry hstate n hn hborn
  rcases hborn with ⟨first, final, hmem, hinterval⟩ | ⟨hpending, hle⟩
  · exact ⟨first, final, List.mem_append_right _ hmem, hinterval⟩
  · -- The record was new when the act started and is stored now.
    have hstored : after.stateOf handle = some .persistent := by
      unfold Scope.stateOf
      rw [hentry, Option.map_some, hstate]
    refine ⟨before.supply.drawn, last.supply.drawn, List.mem_append_left _ ?_, hle, ?_⟩
    · exact List.mem_map.2 ⟨handle, mem_newlyStored hpending hstored, rfl⟩
    · rw [hsupply]
      exact hn

end Journal

/-! ## One act -/

/-- An act keeps a scope sound, whether it is done or fails. -/
theorem Act.perform_ends (hregistry : env.registry.Consistent)
    (hcount : ∀ model ∈ env.registry.models, model.columns.length < 4294967296)
    (h : scope.Sound env (journal.history clock)) (act : Act) :
    (act.perform env).Ends scope
      (fun _ after => after.Sound env ((journal.noteAct act).during clock scope))
      (fun after => after.Sound env (journal.during clock scope)) := by
  have hready := Journal.soundReady_during h
  have hlook := Scope.lookable_soundReady hregistry hcount (journal.during clock scope)
  cases act with
  | create model => exact ScopeM.ends_discard (Scope.create_ends hregistry hready.1 model)
  | assign handle attr value =>
      refine (Scope.assign_ends hready.1 handle attr value).mono ?_ ?_
      · intro _ after hdone
        exact hdone.1
      · rintro _ rfl
        exact hready.1
  | setReference handle field target =>
      refine (Scope.setReference_ends hregistry hready.1 handle field target).mono ?_ ?_
      · intro _ after hfollows
        exact hready.1.of_follows hfollows
      · intro after hfollows
        exact hready.1.of_follows hfollows
  | delete handle =>
      refine (Scope.delete_ends hready.1 handle).mono ?_ ?_
      · intro _ after hdone
        exact hdone.1
      · rintro _ rfl
        exact hready.1
  | _ =>
      -- What is only looked up keeps scopes sound with any history.
      exact (Act.keeps_of_looksUp hlook hregistry (by trivial) scope hready).mono
        (fun _ _ hdone => hdone.1) fun _ hfailed => hfailed.1

namespace Database

variable {α : Type} {db : Database} {action : Environment → ScopeM α}

theorem run_of_none (hscope : db.scope = none) :
    db.run action = (.error (.transaction "no scope is open"), db) := by
  unfold Database.run
  rw [hscope]

theorem run_of_ok (hscope : db.scope = some scope) {a : α}
    (hrun : (action db.environment).run { scope with supply := db.supply } = .ok a after) :
    db.run action = (.ok a, db.resume after) := by
  unfold Database.run
  rw [hscope]
  simp only [hrun]

theorem run_of_error (hscope : db.scope = some scope) {error : Error}
    (hrun : (action db.environment).run { scope with supply := db.supply } = .error error after) :
    db.run action = (.error error, db.resume after) := by
  unfold Database.run
  rw [hscope]
  simp only [hrun]

/-- An action is done only in an open scope, and the scope that it leaves stays open. -/
theorem run_eq_ok {after : Database} {a : α} :
    db.run action = (.ok a, after) ↔ ∃ scope last, db.scope = some scope ∧
      (action db.environment).run { scope with supply := db.supply } = .ok a last ∧
      after = db.resume last := by
  constructor
  · intro h
    cases hscope : db.scope with
    | none =>
        rw [run_of_none hscope] at h
        cases h
    | some scope =>
        cases hrun : (action db.environment).run { scope with supply := db.supply } with
        | ok b last =>
            rw [run_of_ok hscope hrun] at h
            cases h
            exact ⟨scope, last, rfl, hrun, rfl⟩
        | error error last =>
            rw [run_of_error hscope hrun] at h
            cases h
  · rintro ⟨scope, last, hscope, hrun, rfl⟩
    exact run_of_ok hscope hrun

/-- In an open scope an action is done or fails, and the scope that it leaves stays open. -/
theorem run_cases (hscope : db.scope = some scope) (action : Environment → ScopeM α)
    {done : α → Scope → Prop} {failed : Scope → Prop}
    (hends : (action db.environment).Ends { scope with supply := db.supply } done failed) :
    (∃ a after, db.run action = (.ok a, db.resume after) ∧ done a after) ∨
      ∃ error after, db.run action = (.error error, db.resume after) ∧ failed after := by
  cases hrun : (action db.environment).run { scope with supply := db.supply } with
  | ok a after => exact Or.inl ⟨a, after, run_of_ok hscope hrun, hends.of_ok hrun⟩
  | error error after =>
      exact Or.inr ⟨error, after, run_of_error hscope hrun, hends.of_error hrun⟩

/-- An action that cannot fail is done. -/
theorem run_done (hscope : db.scope = some scope) (action : Environment → ScopeM α)
    {done : α → Scope → Prop} {failed : Scope → Prop}
    (hends : (action db.environment).Ends { scope with supply := db.supply } done failed)
    (hnever : ∀ after, ¬failed after) :
    ∃ a after, db.run action = (.ok a, db.resume after) ∧ done a after := by
  rcases run_cases hscope action hends with hdone | ⟨_, after, -, hfailed⟩
  · exact hdone
  · exact absurd hfailed (hnever after)

/-- An action that cannot be done fails. -/
theorem run_failed (hscope : db.scope = some scope) (action : Environment → ScopeM α)
    {done : α → Scope → Prop} {failed : Scope → Prop}
    (hends : (action db.environment).Ends { scope with supply := db.supply } done failed)
    (hnever : ∀ a after, ¬done a after) :
    ∃ error after, db.run action = (.error error, db.resume after) ∧ failed after := by
  rcases run_cases hscope action hends with ⟨a, after, -, hdone⟩ | hfailed
  · exact absurd hdone (hnever a after)
  · exact hfailed

/-- What holds however an action ends holds of the scope that is open afterwards. -/
theorem run_keeps (hscope : db.scope = some scope) (action : Environment → ScopeM α)
    {kept : Scope → Prop}
    (hends : (action db.environment).Ends { scope with supply := db.supply } (fun _ => kept) kept) :
    ∃ after, (db.run action).2 = db.resume after ∧ kept after := by
  rcases run_cases hscope action hends with ⟨_, after, hrun, hafter⟩ | ⟨_, after, hrun, hafter⟩
  · exact ⟨after, by rw [hrun], hafter⟩
  · exact ⟨after, by rw [hrun], hafter⟩

end Database

namespace Run

variable {run : Run}

theorem act_of_none (hscope : run.db.scope = none) (act : Act) : run.act act = run := by
  unfold Run.act
  rw [Database.run_of_none hscope]
  show ({ db := run.db, journal := run.journal.noteInserts run.db run.db } : Run) = run
  unfold Journal.noteInserts
  rw [hscope]

theorem act_of_ok (hscope : run.db.scope = some scope) {act : Act}
    (hrun : (act.perform run.db.environment).run { scope with supply := run.db.supply } =
      .ok () after) :
    run.act act = {
      db := run.db.resume after
      journal := (run.journal.noteAct act).noteInserts run.db (run.db.resume after) } := by
  unfold Run.act
  rw [Database.run_of_ok hscope hrun]

theorem act_of_error (hscope : run.db.scope = some scope) {act : Act} {error : Error}
    (hrun : (act.perform run.db.environment).run { scope with supply := run.db.supply } =
      .error error after) :
    run.act act = {
      db := run.db.resume after
      journal := run.journal.noteInserts run.db (run.db.resume after) } := by
  unfold Run.act
  rw [Database.run_of_error hscope hrun]

theorem act_db (run : Run) (act : Act) : (run.act act).db = (run.db.run act.perform).2 := by
  cases hscope : run.db.scope with
  | none => rw [act_of_none hscope, Database.run_of_none hscope]
  | some scope =>
      cases hrun : (act.perform run.db.environment).run { scope with supply := run.db.supply } with
      | ok _ after => rw [act_of_ok hscope hrun, Database.run_of_ok hscope hrun]
      | error error after => rw [act_of_error hscope hrun, Database.run_of_error hscope hrun]

/-- The open scope, if there is one, is sound with what the journal says. -/
def OpenSound (run : Run) (clock : Supply) : Prop :=
  ∀ scope, run.db.scope = some scope →
    ({ scope with supply := run.db.supply } : Scope).Sound run.db.environment
      (run.journal.history clock)

theorem OpenSound.act (h : run.OpenSound clock) (hregistry : run.db.registry.Consistent)
    (hcount : ∀ model ∈ run.db.registry.models, model.columns.length < 4294967296) (act : Act) :
    (run.act act).OpenSound clock := by
  cases hscope : run.db.scope with
  | none =>
      rw [act_of_none hscope]
      exact h
  | some scope =>
      have hconsistent : run.db.environment.registry.Consistent := hregistry
      have hends := Act.perform_ends hconsistent hcount (h scope hscope) act
      cases hrun : (act.perform run.db.environment).run { scope with supply := run.db.supply } with
      | ok _ after =>
          rw [act_of_ok hscope hrun]
          intro last hlast
          cases hlast
          exact Journal.sound_noteInserts hscope rfl rfl (hends.of_ok hrun)
      | error error after =>
          rw [act_of_error hscope hrun]
          intro last hlast
          cases hlast
          exact Journal.sound_noteInserts hscope rfl rfl (hends.of_error hrun)

end Run

end RecordStore
