import RecordStore.Scope.Basic

/-!
# How actions end

An action of a scope ends with a result or with an error, and leaves a scope either way.
`ScopeM.Ends` says what holds of both.  There is one rule for each way in which actions are made; a
property that holds at every end of the parts holds at every end of the whole.
-/

namespace RecordStore

namespace ScopeM

variable {α β : Type}

/-- What holds of the result of an action and the scope that it leaves, and of the scope that it
leaves when it fails. -/
def Ends (action : ScopeM α) (start : Scope) (done : α → Scope → Prop) (failed : Scope → Prop) :
    Prop :=
  match action.run start with
  | .ok a after => done a after
  | .error _ after => failed after

variable {start after : Scope} {done done' : α → Scope → Prop} {failed failed' : Scope → Prop}

/-! ## What an ending says of a run -/

theorem Ends.of_ok {action : ScopeM α} (h : action.Ends start done failed) {a : α}
    (hrun : action.run start = .ok a after) : done a after := by
  unfold Ends at h
  rw [hrun] at h
  exact h

theorem Ends.of_error {action : ScopeM α} (h : action.Ends start done failed) {error : Error}
    (hrun : action.run start = .error error after) : failed after := by
  unfold Ends at h
  rw [hrun] at h
  exact h

theorem Ends.of_run_eq {action : ScopeM α} {a : α} (hrun : action.run start = .ok a after)
    (h : done a after) : action.Ends start done failed := by
  unfold Ends
  rw [hrun]
  exact h

theorem Ends.mono {action : ScopeM α} (h : action.Ends start done failed)
    (hdone : ∀ a after, done a after → done' a after)
    (hfailed : ∀ after, failed after → failed' after) :
    action.Ends start done' failed' := by
  unfold Ends at h ⊢
  cases hrun : action.run start with
  | ok a after =>
      rw [hrun] at h
      exact hdone a after h
  | error error after =>
      rw [hrun] at h
      exact hfailed after h

theorem Ends.and {action : ScopeM α} (h : action.Ends start done failed)
    (h' : action.Ends start done' failed') :
    action.Ends start (fun a after => done a after ∧ done' a after)
      fun after => failed after ∧ failed' after := by
  unfold Ends at h h' ⊢
  cases hrun : action.run start with
  | ok a after =>
      rw [hrun] at h h'
      exact ⟨h, h'⟩
  | error error after =>
      rw [hrun] at h h'
      exact ⟨h, h'⟩

theorem ends_trivial (action : ScopeM α) (start : Scope) :
    action.Ends start (fun _ _ => True) fun _ => True := by
  unfold Ends
  split
  · trivial
  · trivial

/-- An action that cannot fail gives a result. -/
theorem Ends.run_eq {action : ScopeM α} (h : action.Ends start done fun _ => False) :
    ∃ a after, action.run start = .ok a after ∧ done a after := by
  cases hrun : action.run start with
  | ok a after => exact ⟨a, after, rfl, h.of_ok hrun⟩
  | error error after => exact (h.of_error hrun).elim

/-- An action that succeeds does so with its result. -/
theorem ends_run (action : ScopeM α) (start : Scope) :
    action.Ends start (fun a after => action.run start = .ok a after) (fun _ => True) := by
  unfold Ends
  cases action.run start with
  | ok a after => rfl
  | error error after => trivial

/-! ## Ways to make actions -/

theorem ends_pure {a : α} (h : done a start) : (pure a : ScopeM α).Ends start done failed := h

theorem ends_bind {action : ScopeM α} {next : α → ScopeM β} {done' : β → Scope → Prop}
    (h : action.Ends start done failed)
    (hnext : ∀ a after, done a after → (next a).Ends after done' failed) :
    (action >>= next).Ends start done' failed := by
  unfold Ends at h ⊢
  rw [EStateM.run_bind]
  cases hrun : action.run start with
  | ok a after =>
      rw [hrun] at h
      exact hnext a after h
  | error error after =>
      rw [hrun] at h
      exact h

theorem ends_get_bind {next : Scope → ScopeM α} (h : (next start).Ends start done failed) :
    (get >>= next).Ends start done failed := h

theorem ends_set_bind {scope : Scope} {next : PUnit → ScopeM α}
    (h : (next ⟨⟩).Ends scope done failed) : (set scope >>= next).Ends start done failed := h

theorem ends_modify_bind {f : Scope → Scope} {next : PUnit → ScopeM α}
    (h : (next ⟨⟩).Ends (f start) done failed) : (modify f >>= next).Ends start done failed := h

theorem ends_modify {f : Scope → Scope} {done : PUnit → Scope → Prop} (h : done ⟨⟩ (f start)) :
    (modify f : ScopeM PUnit).Ends start done failed := h

theorem ends_throw {error : Error} (h : failed start) :
    (throw error : ScopeM α).Ends start done failed := h

theorem ends_lift {result : Except Error α} (hdone : ∀ a, result = .ok a → done a start)
    (hfailed : failed start) : (ScopeM.lift result).Ends start done failed := by
  cases result with
  | ok a => exact hdone a rfl
  | error error => exact hfailed

theorem ends_lift_bind {result : Except Error α} {next : α → ScopeM β} {done : β → Scope → Prop}
    (hdone : ∀ a, result = .ok a → (next a).Ends start done failed) (hfailed : failed start) :
    (ScopeM.lift result >>= next).Ends start done failed := by
  have hlift : (ScopeM.lift result).Ends start
      (fun a after => result = .ok a ∧ after = start) failed :=
    ends_lift (fun _ ha => ⟨ha, rfl⟩) hfailed
  refine ends_bind hlift ?_
  rintro a _ ⟨ha, rfl⟩
  exact hdone a ha

/-- A result that is known to be right is taken over. -/
theorem ends_lift_bind_of_ok {result : Except Error α} {a : α} (ha : result = .ok a)
    {next : α → ScopeM β} {done : β → Scope → Prop} (hnext : (next a).Ends start done failed) :
    (ScopeM.lift result >>= next).Ends start done failed := by
  rw [ha]
  exact hnext

theorem ends_consult {answer : Except Error α}
    (hdone : ∀ a, answer = .ok a → done a { start with consulted := true })
    (hfailed : failed { start with consulted := true }) :
    (ScopeM.consult answer).Ends start done failed := by
  cases answer with
  | ok a => exact hdone a rfl
  | error error => exact hfailed

theorem ends_consult_bind {answer : Except Error α} {next : α → ScopeM β} {done : β → Scope → Prop}
    (hdone : ∀ a, answer = .ok a → (next a).Ends { start with consulted := true } done failed)
    (hfailed : failed { start with consulted := true }) :
    (ScopeM.consult answer >>= next).Ends start done failed := by
  have hconsult : (ScopeM.consult answer).Ends start
      (fun a after => answer = .ok a ∧ after = { start with consulted := true }) failed :=
    ends_consult (fun _ ha => ⟨ha, rfl⟩) hfailed
  refine ends_bind hconsult ?_
  rintro a _ ⟨ha, rfl⟩
  exact hdone a ha

/-- What every step of a loop keeps holds after the loop. -/
theorem ends_forM {xs : List α} {body : α → ScopeM PUnit} {kept : Scope → Prop}
    (hstart : kept start)
    (hbody : ∀ x ∈ xs, ∀ scope, kept scope → (body x).Ends scope (fun _ => kept) failed) :
    (xs.forM body).Ends start (fun _ => kept) failed := by
  induction xs generalizing start with
  | nil => exact hstart
  | cons x rest ih =>
      refine ends_bind (hbody x List.mem_cons_self start hstart) ?_
      intro _ after hafter
      refine ih hafter ?_
      intro y hy
      exact hbody y (List.mem_cons_of_mem _ hy)

/-- A loop whose steps each do their part, and leave what was done: afterwards all is done, or one step is
stuck and the steps before it have done their parts. -/
theorem ends_forM_each {xs : List α} {body : α → ScopeM PUnit} {kept : Scope → Prop}
    {part stuck : α → Scope → Prop} (hstart : kept start)
    (hbody : ∀ x ∈ xs, ∀ scope, kept scope → (body x).Ends scope
      (fun _ after => kept after ∧ part x after ∧ ∀ y ∈ xs, part y scope → part y after)
      (fun after => kept after ∧ stuck x after ∧ ∀ y ∈ xs, part y scope → part y after)) :
    (xs.forM body).Ends start (fun _ after => kept after ∧ ∀ x ∈ xs, part x after)
      (fun after => kept after ∧ ∃ before x rest, xs = before ++ x :: rest ∧ stuck x after ∧
        ∀ y ∈ before, part y after) := by
  -- The parts of the steps that are over are carried along.
  have hloop : ∀ (rest finished : List α) (scope : Scope), xs = finished ++ rest → kept scope →
      (∀ y ∈ finished, part y scope) → (rest.forM body).Ends scope
        (fun _ after => kept after ∧ ∀ x ∈ xs, part x after)
        (fun after => kept after ∧ ∃ before x rest, xs = before ++ x :: rest ∧ stuck x after ∧
          ∀ y ∈ before, part y after) := by
    intro rest
    induction rest with
    | nil =>
        intro finished scope hxs hscope hfinished
        refine ends_pure ⟨hscope, ?_⟩
        simpa [hxs] using hfinished
    | cons x rest ih =>
        intro finished scope hxs hscope hfinished
        have hmem : ∀ y ∈ finished, y ∈ xs := fun y hy => hxs ▸ List.mem_append_left _ hy
        have hx : x ∈ xs := hxs ▸ List.mem_append_right _ List.mem_cons_self
        refine ends_bind ((hbody x hx scope hscope).mono (fun _ _ hdone => hdone) ?_) ?_
        · rintro after ⟨hafter, hstuck, hleft⟩
          exact ⟨hafter, finished, x, rest, hxs, hstuck, fun y hy => hleft y (hmem y hy) (hfinished y hy)⟩
        · rintro _ after ⟨hafter, hpart, hleft⟩
          refine ih (finished ++ [x]) after (by simp [hxs]) hafter ?_
          intro y hy
          rcases List.mem_append.1 hy with hold | hnew
          · exact hleft y (hmem y hold) (hfinished y hold)
          · rw [List.mem_singleton.1 hnew]
            exact hpart
  exact hloop xs [] start rfl hstart (by simp)

/-! ## Records -/

theorem ends_entry (handle : Handle) (hfailed : failed start) :
    (Scope.entry handle).Ends start
      (fun entry after => start.entries[handle]? = some entry ∧ after = start) failed := by
  unfold Scope.entry
  refine ends_get_bind ?_
  cases hentry : start.entries[handle]? with
  | none => exact ends_throw hfailed
  | some entry => exact ends_pure ⟨rfl, rfl⟩

theorem ends_entry_bind {handle : Handle} {next : Entry → ScopeM α} {done : α → Scope → Prop}
    (hdone : ∀ entry, start.entries[handle]? = some entry → (next entry).Ends start done failed)
    (hfailed : failed start) : (Scope.entry handle >>= next).Ends start done failed := by
  refine ends_bind (ends_entry handle hfailed) ?_
  rintro entry _ ⟨hentry, rfl⟩
  exact hdone entry hentry

theorem ends_record_bind {handle : Handle} {next : Record → ScopeM α} {done : α → Scope → Prop}
    (hdone : ∀ entry, start.entries[handle]? = some entry →
      (next entry.record).Ends start done failed)
    (hfailed : failed start) : (Scope.record handle >>= next).Ends start done failed := by
  unfold Scope.record
  rw [bind_assoc]
  refine ends_entry_bind ?_ hfailed
  intro entry hentry
  rw [pure_bind]
  exact hdone entry hentry

/-- The entry of a handle that is known is taken. -/
theorem ends_entry_bind_of_some {handle : Handle} {entry : Entry}
    (hentry : start.entries[handle]? = some entry) {next : Entry → ScopeM α} {done : α → Scope → Prop}
    (hnext : (next entry).Ends start done failed) :
    (Scope.entry handle >>= next).Ends start done failed := by
  have hfound : (Scope.entry handle).Ends start (fun found after => found = entry ∧ after = start)
      failed := by
    unfold Scope.entry
    refine ends_get_bind ?_
    rw [hentry]
    exact ends_pure ⟨rfl, rfl⟩
  refine ends_bind hfound ?_
  rintro _ _ ⟨rfl, rfl⟩
  exact hnext

theorem ends_record_bind_of_some {handle : Handle} {entry : Entry}
    (hentry : start.entries[handle]? = some entry) {next : Record → ScopeM α}
    {done : α → Scope → Prop} (hnext : (next entry.record).Ends start done failed) :
    (Scope.record handle >>= next).Ends start done failed := by
  unfold Scope.record
  rw [bind_assoc]
  refine ends_entry_bind_of_some hentry ?_
  rw [pure_bind]
  exact hnext

end ScopeM

/-- A record is replaced by what it is changed to, if it can be changed. -/
theorem Scope.updateRecord_cases (scope : Scope) (handle : Handle) (f : Record → Except Error Record) :
    (updateRecord handle f).Ends scope
      (fun _ after => ∃ entry changed, scope.entries[handle]? = some entry ∧
        f entry.record = .ok changed ∧ after = scope.modifyRecord handle fun _ => changed)
      (fun after => after = scope) := by
  unfold updateRecord
  refine ScopeM.ends_record_bind ?_ rfl
  intro entry hentry
  refine ScopeM.ends_lift_bind ?_ rfl
  intro changed hchanged
  exact ScopeM.ends_modify ⟨entry, changed, hentry, hchanged, rfl⟩

end RecordStore
