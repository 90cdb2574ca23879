import RecordStore.Proofs.Integrity.GoneTargets
import RecordStore.Proofs.Integrity.LastReferences
import RecordStore.Proofs.Integrity.RowImages
import RecordStore.Proofs.Scope.Bearing

/-!
# Records that are added again

A record with a key that is added stands for its row, in the place of the record that did so before.  The next
flush that succeeds writes what was marked in it (`added_record_is_flushed`), unless the record before was to
be deleted or was deleted already: then the scope goes on deleting the row, and what was added is lost
(`deleted_note_stays_deleted`).
-/

namespace RecordStore

namespace Scope

variable {env : Environment} {scope before after : Scope} {handle : Handle} {record : Record}

/-! ## Records that are not deleted -/

theorem SameStates.stays (h : before.SameStates after) (hstays : before.Stays handle) :
    after.Stays handle := by
  obtain ⟨entry, hentry, hlive⟩ := hstays
  obtain ⟨new, hnew, hstate⟩ := stateOf_eq_some.1 ((h handle).trans (stateOf_eq_some.2 ⟨entry, hentry, rfl⟩))
  exact ⟨new, hnew, hstate ▸ hlive⟩

theorem Stays.appendAs (h : scope.Stays handle) (new : Entry) (identity : SortedMap (String × Int64) Handle) :
    (scope.appendAs new identity).Stays handle := by
  obtain ⟨entry, hentry, hlive⟩ := h
  exact ⟨entry, getElem?_appendAs.2 (Or.inl hentry), hlive⟩

/-- A flush takes away no record that is to stay. -/
theorem flush_stays (h : scope.Stays handle) :
    (flush env).Ends scope (fun _ after => after.Stays handle) (fun after => after.Stays handle) := by
  refine (flush_states env scope).mono ?_ fun _ hsame => hsame.stays h
  intro _ after hstates
  obtain ⟨entry, hentry, hlive⟩ := h
  have hstate := hstates handle
  rw [stateOf_eq_some.2 ⟨entry, hentry, rfl⟩, Option.map_some] at hstate
  obtain ⟨new, hnew, hafter⟩ := stateOf_eq_some.1 hstate
  refine ⟨new, hnew, ?_⟩
  rw [hafter]
  cases hcase : entry.state <;> simp [hcase, Lifecycle.afterFlush, Lifecycle.isLive] at hlive ⊢

theorem lookable_stays (env : Environment) (handle : Handle) :
    Lookable env fun scope => scope.Stays handle where
  consulted _ h := h
  flush _ h := flush_stays h
  materialize {scope model id row} h _ _ _ _ := by
    refine (materialize_cases env scope model id row).mono ?_ ?_
    · rintro _ _ ⟨loaded, rfl⟩
      exact ⟨h.appendAs _ _, rfl⟩
    · rintro _ rfl
      exact h

/-- Only its deletion takes a record away. -/
theorem perform_stays (hregistry : env.registry.Consistent) {deed : Deed}
    (hdeed : deed ≠ .act (.delete handle)) (h : scope.Stays handle) :
    (deed.perform env).Ends scope (fun _ after => after.Stays handle) (fun after => after.Stays handle) := by
  have hsteady : ∀ after, scope.Steady env after → after.Stays handle :=
    fun _ hafter => hafter.sameStates.stays h
  cases deed with
  | add record =>
      refine ScopeM.ends_discard ((add_cases scope record).mono ?_ fun _ => False.elim)
      rintro _ _ (_ | _ | _)
      · exact h.appendAs _ _
      · exact h.appendAs _ _
      · exact (stays_modifyRecord ..).2 h
  | edit other edit =>
      exact (updateRecord_steady env scope other edit.keeps).mono (fun _ => hsteady) hsteady
  | act act =>
      change (act.perform env).Ends scope _ _
      cases act with
      | create model =>
          refine ScopeM.ends_discard ((create_cases env scope model).mono ?_ ?_)
          · rintro _ _ ⟨_, -, rfl⟩
            exact h.appendAs _ _
          · rintro _ rfl
            exact h
      | assign other attr value =>
          exact (updateRecord_steady env scope other (Edit.set attr value).keeps).mono (fun _ => hsteady)
            hsteady
      | setReference other field target =>
          exact (setReference_steady env scope other field target).mono (fun _ => hsteady) hsteady
      | delete other =>
          refine (delete_cases scope other).mono ?_ ?_
          · rintro _ _ rfl
            obtain ⟨entry, hentry, hlive⟩ := h
            have hne : other ≠ handle := fun hsame => hdeed (hsame ▸ rfl)
            exact ⟨entry, (getElem?_modifyEntry ..).trans (by rw [hentry, Option.map_some, if_neg hne]), hlive⟩
          · rintro _ rfl
            exact h
      | _ => exact Act.keeps_of_looksUp (lookable_stays env handle) hregistry (by trivial) scope h

/-! ## Adding -/

/-- A record with a key takes the place of the one that stood for the key, or else is stored from now on. -/
structure Adopts (before : Scope) (record : Record) (id : Int64) (handle : Handle) (after : Scope) : Prop where
  entry : ∃ state, after.entries[handle]? = some { record, state } ∧
    (before.stateOf handle = none ∧ state = .persistent ∨
      before.identity.find? (record.modelName, id) = some handle ∧ before.stateOf handle = some state)
  staged : after.staged = before.staged
  links : after.links = before.links

theorem add_adopts (hrooted : scope.Rooted env) {id : Int64} (hid : record.id = some id) :
    (add record).Ends scope (fun handle after => scope.Adopts record id handle after) (fun _ => False) := by
  unfold add
  simp only [hid]
  refine ScopeM.ends_get_bind ?_
  cases hfind : scope.identity.find? (record.modelName, id) with
  | none =>
      refine ⟨⟨.persistent, getElem?_appendAs.2 (Or.inr ⟨rfl, rfl⟩), Or.inl ⟨?_, rfl⟩⟩, rfl, rfl⟩
      simp [stateOf]
  | some handle =>
      obtain ⟨s, hs, -⟩ := hrooted.identity _ _ _ hfind
      obtain ⟨old, hold, rfl⟩ := Option.map_eq_some_iff.1 hs
      refine ScopeM.ends_set_bind (ScopeM.ends_pure ⟨⟨old.state, ?_, Or.inr ⟨hfind, ?_⟩⟩, rfl, rfl⟩)
      · rw [getElem?_modifyRecord, hold, Option.map_some, if_pos rfl]
      · exact stateOf_eq_some.2 ⟨old, hold, rfl⟩

section

variable {terms : Terms} {deleted : List (String × UInt64)} {column : Column} {held : Option Value}
  (hregistry : env.registry.Consistent)
  (hcount : ∀ model ∈ env.registry.models, model.columns.length < 4294967296)
  (hdata : column.primaryKey = false)

include hregistry hcount hdata

/-- A deed that leaves a column alone leaves what it bears, whether it succeeds or fails. -/
theorem perform_bearing (h : scope.Intact env terms deleted) (horderly : scope.Orderly) {deed : Deed}
    (hregistered : ∀ record, deed = .add record → record.model ∈ env.registry.models)
    (hspared : scope.SparesReference handle column.name deed) (hbearing : scope.Bearing handle column held) :
    (deed.perform env).Ends scope (fun _ after => after.Bearing handle column held)
      (fun after => after.Bearing handle column held) := by
  refine perform_of_spares hregistry h.rooted hregistered hspared (fun _ => hbearing.transfer) ?_
  intro act hlooks _
  exact (Act.keeps_of_looksUp (lookable_bearing hregistry hcount hdata h) hregistry hlooks scope
    ⟨⟨Relation.ReflTransGen.refl, horderly⟩, hbearing⟩).mono (fun _ _ hdone => hdone.2)
    fun _ hfailed => hfailed.2

end

/-- A row is visible and holds a value in a column. -/
def RowHolds (env : Environment) (scope : Scope) (table : String) (number : UInt64) (name : String)
    (stored : Value) : Prop :=
  ∃ row columns, scope.visibleRow env table number = .ok (some row) ∧ row.Holds columns ∧
    storedColumn columns name = stored

/-- In a scope at rest the row of a record that is to stay holds what its column bears. -/
theorem AtRest.rowHolds {column : Column} {held : Option Value} (h : scope.AtRest) {model : Model}
    {id : Int64} (hbearing : scope.Bearing handle column held) {state : Lifecycle}
    (hs : scope.standing handle = some { state, model, id := some id }) (hstays : scope.Stays handle)
    (hsole : scope.Sole handle) : ∃ value stored, held = some value ∧
      column.bind model.tableName value = .ok stored ∧
      scope.RowHolds env model.tableName id.toUInt64 column.name stored := by
  obtain ⟨entry, hentry, -, -, hbears⟩ := hbearing
  obtain ⟨same, hsame, hlive⟩ := hstays
  obtain rfl := Option.some.inj (hentry.symm.trans hsame)
  have hstands := Option.some.inj ((standing_of_entry hentry).symm.trans hs)
  obtain rfl : entry.record.model = model := congrArg Standing.model hstands
  have hid : entry.record.id = some id := congrArg Standing.id hstands
  have hunmarked : entry.record.isChanged column.name = false := by
    rcases h.settled handle entry hentry with ⟨-, hchanged⟩ | hremoved
    · exact Record.isChanged_of_unchanged hchanged _
    · simp [hremoved, Lifecycle.isLive] at hlive
  cases hbears hlive hsole with
  | marked hmarked => cases hunmarked.symm.trans hmarked
  | bound value stored hheld hbind hleaves =>
      cases hleaves with
      | marked _ hmarked => cases hunmarked.symm.trans hmarked
      | staged key row columns _ _ hkey hrow hholds hstored =>
          obtain rfl := Option.some.inj (hid.symm.trans hkey)
          exact ⟨value, stored, hheld, hbind, row, columns, visibleRow_of_staged hrow, hholds, hstored⟩

end Scope

/-! ## Courses -/

namespace Course.Intact

variable {registry : Registry} {terms : Terms} {course : Course} {scope : Scope} {handle : Handle}

/-- Adding a record goes on with the scope that adopts it. -/
theorem step_add (h : course.Intact registry terms) (hscope : course.db.scope = some scope) {record : Record}
    {id : Int64} (hid : record.id = some id)
    (hadd : (course.db.run fun _ => Scope.add record).1 = .ok handle) :
    ∃ after, course.step (.deed (.add record)) = { course with db := course.db.resume after } ∧
      scope.Adopts record id handle after := by
  obtain ⟨after, hrun⟩ := (Database.run_fst_eq_ok hscope).1 hadd
  obtain ⟨_, hstep, rfl⟩ : ∃ later, course.step (.deed (.add record)) =
      { course with db := course.db.resume later } ∧ after = later :=
    step_deed hscope (ScopeM.ends_discard (.of_run_eq hrun rfl))
  refine ⟨after, hstep, ?_⟩
  obtain ⟨hentry, hstaged, hlinks⟩ := (Scope.add_adopts (h.opened scope hscope).rooted hid).of_ok hrun
  exact ⟨hentry, hstaged, hlinks⟩

/-- A record that is to stay does so in all deeds that do not delete it. -/
theorem stays_deeds (h : course.Intact registry terms) (hregistry : registry.Consistent)
    (hcount : ∀ model ∈ registry.models, model.columns.length < 4294967296) {deeds : List Deed}
    (hmeets : course.Meets terms (deeds.map .deed)) (hdeeds : .act (.delete handle) ∉ deeds)
    (hscope : course.db.scope = some scope) (hstays : scope.Stays handle) :
    ∃ last, ((deeds.map .deed).foldl Course.step course).db.scope = some last ∧ last.Stays handle := by
  refine h.keeps_deeds hregistry hcount
    (fun course => ∃ scope, course.db.scope = some scope ∧ scope.Stays handle)
    (fun _ deed => deed ≠ .act (.delete handle)) ?_ hmeets
    (throughout_of_forall (fun deed hdeed _ => ne_of_mem_of_not_mem hdeed hdeeds) course)
    ⟨scope, hscope, hstays⟩
  rintro course deed hintact - hdeed ⟨scope, hscope, hstays⟩
  obtain ⟨after, hstep, hafter⟩ := step_deed hscope
    (Scope.perform_stays (hintact.registry_consistent hregistry) hdeed hstays)
  exact ⟨after, by rw [hstep]; rfl, hafter⟩

/-! ## Deeds and a flush -/

section

variable (h : course.Intact registry terms) (hregistry : registry.Consistent)
  (hcount : ∀ model ∈ registry.models, model.columns.length < 4294967296) {deeds : List Deed}
  (hmeets : course.Meets terms (deeds.map .deed)) (hscope : course.db.scope = some scope) {after : Database}
  (hflush : ((deeds.map .deed).foldl Course.step course).db.run Scope.flush = (.ok (), after)) {last : Scope}
  (hlast : after.scope = some last)

include h hregistry hcount hmeets hscope hflush hlast

/-- Deeds and a flush that succeeds take the open scope along moves to one that is at rest. -/
theorem reaches_rest : after.environment = course.db.environment ∧ last.AtRest ∧
    ({ scope with supply := course.db.supply } : Scope).Reaches course.db.environment terms last := by
  obtain ⟨begun, hbegun, henvironment, hreaches⟩ := h.deeds_reach hregistry hcount hmeets hscope
  obtain ⟨_, flushed, hopened, hrun, rfl⟩ := Database.run_eq_ok.1 hflush
  cases hbegun.symm.trans hopened
  cases hlast
  refine ⟨henvironment, (Scope.flush_rests _ _).of_ok hrun, ?_⟩
  have hrooted := (h.opened scope hscope).rooted
  have hbegins := hreaches.tail (.steady (Scope.steady_supply _ begun
    ((deeds.map .deed).foldl Course.step course).db.supply))
  rw [henvironment] at hrun
  exact (Scope.flush_reaches hrooted _ hbegins).of_ok hrun

/-- When records from outside have their rows, every record has its row to itself. -/
theorem sole_flushed (hterms : terms.grounded) (handle : Handle) : last.Sole handle := by
  obtain ⟨-, -, hreaches⟩ := h.reaches_rest hregistry hcount hmeets hscope hflush hlast
  have hconsistent := h.registry_consistent hregistry
  have hintact := (h.opened scope hscope).reaches hconsistent (h.counted hcount) hreaches
  exact (hintact.keyed hterms).sole hconsistent hintact.rooted handle

/-- A record that is to stay still does after deeds that do not delete it and a flush. -/
theorem stays_flushed {handle : Handle} (hdeeds : .act (.delete handle) ∉ deeds)
    (hstays : scope.Stays handle) : last.Stays handle := by
  obtain ⟨begun, hbegun, hbegins⟩ := h.stays_deeds hregistry hcount hmeets hdeeds hscope hstays
  obtain ⟨_, flushed, hopened, hrun, rfl⟩ := Database.run_eq_ok.1 hflush
  cases hbegun.symm.trans hopened
  cases hlast
  have hstays : ({ begun with supply := ((deeds.map .deed).foldl Course.step course).db.supply } : Scope).Stays
      handle := hbegins
  exact (Scope.flush_stays hstays).of_ok hrun

/-- The row of a record that is not deleted is visible after the flush if it was there, or the record was
new. -/
theorem present_flushed {handle : Handle} {model : Model} {id : Int64}
    (hdeeds : .act (.delete handle) ∉ deeds) (hstays : scope.Stays handle)
    (hpresent : scope.Present course.db.environment handle model id) (hsole : last.Sole handle) :
    ∃ row, last.visibleRow after.environment model.tableName id.toUInt64 = .ok (some row) := by
  obtain ⟨henvironment, hrests, hreaches⟩ := h.reaches_rest hregistry hcount hmeets hscope hflush hlast
  obtain ⟨entry, hentry, hlive⟩ := h.stays_flushed hregistry hcount hmeets hscope hflush hlast hdeeds hstays
  have hstart : ({ scope with supply := course.db.supply } : Scope).Present course.db.environment handle model
      id := hpresent
  obtain ⟨state, hs, hrow⟩ := Scope.present_reaches hstart hreaches
  obtain rfl : entry.state = state :=
    congrArg Standing.state (Option.some.inj ((Scope.standing_of_entry hentry).symm.trans hs))
  rw [henvironment]
  refine (hrow hlive hsole).resolve_left ?_
  -- Nothing is new in a scope at rest.
  intro hpending
  rcases hrests.settled handle entry hentry with ⟨hstate, -⟩ | hstate <;> cases hpending.symm.trans hstate

/-- What a column bears is in the row of the record after the flush, if nothing has concerned it. -/
theorem bearing_flushed (horderly : course.Orderly)
    (hlawful : ∀ deed ∈ deeds, Event.Lawful registry (.deed deed)) {handle : Handle} {s : Standing}
    (hdeeds : .act (.delete handle) ∉ deeds) (hstays : scope.Stays handle)
    (hs : scope.standing handle = some s) {id : Int64} (hid : s.id = some id) {column : Column}
    (hdata : column.primaryKey = false) {held : Option Value} (hbearing : scope.Bearing handle column held)
    (hspared : course.SparesReference handle column.name deeds) (hsole : last.Sole handle) :
    ∃ value stored, held = some value ∧ column.bind s.model.tableName value = .ok stored ∧
      last.RowHolds after.environment s.model.tableName id.toUInt64 column.name stored := by
  obtain ⟨-, hrests, hreaches⟩ := h.reaches_rest hregistry hcount hmeets hscope hflush hlast
  obtain ⟨begun, hbegun, hbegins⟩ := h.keeps_spared horderly hregistry hcount
    (fun scope => scope.Bearing handle column held)
    (fun _ _ hbearing => hbearing.transfer (.of_same rfl rfl rfl))
    (fun hsame hopened horderly hregistered hspared hbearing => by
      subst hsame
      exact Scope.perform_bearing hregistry hcount hdata hopened horderly hregistered hspared hbearing)
    hmeets hlawful hspared hscope hbearing
  have hbefore := h.foldl_step hregistry hcount hmeets
  have hlater := horderly.foldl_step h hregistry hcount hmeets (by simpa using hlawful)
  have hlasts := h.stays_flushed hregistry hcount hmeets hscope hflush hlast hdeeds hstays
  obtain ⟨_, flushed, hopened, hrun, rfl⟩ := Database.run_eq_ok.1 hflush
  cases hbegun.symm.trans hopened
  cases hlast
  have hborne : last.Bearing handle column held := (Scope.flush_bearing (hbefore.registry_consistent hregistry)
    (hbefore.counted hcount) hdata (hbefore.opened begun hbegun) ((hlater begun hbegun).of_same rfl rfl)
    (hbegins.transfer (.of_same rfl rfl rfl))).of_ok hrun
  obtain ⟨⟨state, model, key⟩, hs', rfl, hkept⟩ := Scope.reaches_carries hreaches
    (show ({ scope with supply := course.db.supply } : Scope).standing handle = some s from hs)
  obtain rfl := hkept id hid
  exact hrests.rowHolds hborne hs' hlasts hsole

end

end Course.Intact

/-- A record that is added with a key is flushed.  Take a database to which nothing has happened and any course
of events that mark no keys, in which the records that come from outside are of its models; they need not have
their rows.  Let a record with a key be added, where no record stands for the key or one that is to stay, and
let anything be done then that does not delete it.  Let a flush succeed now.  If no other record of the scope
is for the row, which is always so as long as records that come from outside have their rows, then:

- The row is visible if it was so when the record was added, or if the record before was new.
- Each column that was marked in the record, and is no primary key, is bound, and its stored form is in the row
  that is visible, unless the column had a link, or something that was done since concerned it. -/
theorem added_record_is_flushed {db : Database} (hfresh : db.Fresh) {terms : Terms} {events : List Event}
    {record : Record} {deeds : List Deed}
    (hmeets : Course.Meets terms { db } (events ++ .deed (.add record) :: deeds.map .deed))
    (hlawful : ∀ event ∈ events ++ .deed (.add record) :: deeds.map .deed, event.Lawful db.registry)
    {id : Int64} (hid : record.id = some id) {handle : Handle} (hdeeds : .act (.delete handle) ∉ deeds) :
    let before := events.foldl Course.step { db }
    let added := before.step (.deed (.add record))
    let course := (deeds.map .deed).foldl Course.step added
    ∀ scope after last, before.db.scope = some scope →
      (∀ other, scope.identity.find? (record.modelName, id) = some other → scope.Stays other) →
      (before.db.run fun _ => Scope.add record).1 = .ok handle →
      course.db.run Scope.flush = (.ok (), after) → after.scope = some last →
      (¬terms.grounded → last.Sole handle) →
        ((∃ row, scope.visibleRow before.db.environment record.model.tableName id.toUInt64 = .ok (some row)) ∨
            scope.stateOf handle = some .pending →
          ∃ row, last.visibleRow after.environment record.model.tableName id.toUInt64 = .ok (some row)) ∧
        ∀ column ∈ record.model.columns, column.primaryKey = false → record.isChanged column.name = true →
          scope.links.find? (handle, column.name) = none → added.SparesReference handle column.name deeds →
            ∃ value stored, record.get column.name = .ok value ∧
              column.bind record.model.tableName value = .ok stored ∧
              last.RowHolds after.environment record.model.tableName id.toUInt64 column.name stored := by
  intro before added course scope after last hscope hheld hadd hflush hlast hsole
  have hregistry := hfresh.consistent
  obtain ⟨hearlier, hnow, hlater⟩ := Course.meets_append.1 hmeets
  obtain ⟨hlawful, hlawful', hlawfulDeeds⟩ : (∀ event ∈ events, event.Lawful db.registry) ∧
      Event.Lawful db.registry (.deed (.add record)) ∧
      ∀ deed ∈ deeds, Event.Lawful db.registry (.deed deed) := by
    simpa [or_imp, forall_and] using hlawful
  have hbefore : before.Intact db.registry terms := hfresh.intact hearlier
  have horderly : before.Orderly := hfresh.orderly hearlier hlawful
  have hadded : added.Intact db.registry terms := hbefore.step hregistry hfresh.counted hnow
  have horderly' : added.Orderly := horderly.step hbefore hregistry hnow hlawful'
  -- The record that is added is live.
  obtain ⟨made, hstep, ⟨state, hentry, hstate⟩, hstaged, hlinks⟩ := hbefore.step_add hscope hid hadd
  have hopened : added.db.scope = some made := congrArg (·.db.scope) hstep
  have henvironment : added.db.environment = before.db.environment := congrArg (·.db.environment) hstep
  have hstays : made.Stays handle := by
    refine ⟨_, hentry, ?_⟩
    rcases hstate with ⟨-, rfl⟩ | ⟨hfind, hstate⟩
    · rfl
    · obtain ⟨old, hold, hlive⟩ := hheld handle hfind
      obtain ⟨same, hsame, rfl⟩ := Scope.stateOf_eq_some.1 hstate
      obtain rfl := Option.some.inj (hold.symm.trans hsame)
      exact hlive
  have hown : last.Sole handle := by
    by_cases hterms : terms.grounded
    · exact hadded.sole_flushed hregistry hfresh.counted hlater hopened hflush hlast hterms handle
    · exact hsole hterms
  have hs : made.standing handle = some { state, model := record.model, id := record.id } :=
    Scope.standing_of_entry hentry
  constructor
  · intro hrow
    refine hadded.present_flushed hregistry hfresh.counted hlater hopened hflush hlast hdeeds hstays
      ⟨state, by rw [hs, hid], fun _ _ => ?_⟩ hown
    rcases hrow with ⟨row, hrow⟩ | hpending
    · exact Or.inr ⟨row, (Scope.visibleRow_congr (by rw [hstaged])).trans (henvironment ▸ hrow)⟩
    · rcases hstate with ⟨hnone, -⟩ | ⟨-, hstate⟩
      · cases hpending.symm.trans hnone
      · exact Or.inl (Option.some.inj (hstate.symm.trans hpending))
  · intro column hcolumn hdata hmarked hlink hspared
    have hbearing : made.Bearing handle column (record.values.find? column.name) :=
      ⟨_, hentry, hcolumn, by rw [hlinks]; exact hlink, fun _ _ => .marked hmarked rfl⟩
    obtain ⟨value, stored, hheld, hshown⟩ := hadded.bearing_flushed hregistry hfresh.counted hlater hopened
      hflush hlast horderly' hlawfulDeeds hdeeds hstays hs hid hdata hbearing hspared hown
    exact ⟨value, stored, Record.get_eq_ok.2 hheld, hshown⟩

/-- The title of the note is assigned anew. -/
def noteIsRetitled : List Event := noteIsFound ++ [.deed (.act (.assign 0 "title" (.text "b")))]

/-- The note is deleted, and another scope is opened. -/
def noteIsDropped : List Event := noteIsRetitled ++ [.deed (.act (.delete 0)), .commit, .openScope]

/-- A copy of the note with the new title is added when its row is not there any more, and gets a body.  Then
the row is there again, with the new title. -/
theorem added_record_is_flushed_for_copy :
    ∃ copy ∈ (noteIsRetitled.foldl Course.step { db := titledNotes }).record? 0,
      let course := (noteIsDropped.foldl Course.step { db := titledNotes }).step (.deed (.add copy))
      let flushed := (course.step (.deed (.act (.assign 0 "body" (.text "c"))))).db.run Scope.flush
      flushed.1 = .ok () ∧ ∃ last stored, flushed.2.scope = some last ∧
        last.RowHolds flushed.2.environment "notes" 1 "title" stored ∧ stored.asText? = some "b" := by
  let terms : Terms := { grounded := False, undeleted := False }
  have hretitled : Course.Meets terms { db := titledNotes } noteIsRetitled :=
    Course.meets_of_brings_nothing (by simp [noteIsRetitled, noteIsFound]) False.elim _
  have hdropped : Course.Meets terms { db := titledNotes } noteIsDropped :=
    Course.meets_of_brings_nothing (by simp [noteIsDropped, noteIsRetitled, noteIsFound]) False.elim _
  obtain ⟨copy, hcopy, ⟨hid, htable, hkey, column, hcolumn, hname, hdata, hmarked, value, hvalue, hbind⟩,
      ⟨scope, hscope, hfresh, hlinks⟩, hadd, hflush, last, hlast, hlength⟩ :
      ∃ copy ∈ (noteIsRetitled.foldl Course.step { db := titledNotes }).record? 0,
        let before := noteIsDropped.foldl Course.step { db := titledNotes }
        let flushed := ((before.step (.deed (.add copy))).step
          (.deed (.act (.assign 0 "body" (.text "c"))))).db.run Scope.flush
        (copy.id = some 1 ∧ copy.model.tableName = "notes" ∧
          (copy.model.primaryKey?.all fun key => !copy.isChanged key.name) ∧
          ∃ column ∈ copy.model.columns, column.name = "title" ∧ column.primaryKey = false ∧
            copy.isChanged column.name = true ∧ ∃ value ∈ (copy.get column.name).toOption,
              (column.bind copy.model.tableName value).toOption.bind Value.asText? = some "b") ∧
        (∃ scope ∈ before.db.scope, scope.identity.find? (copy.modelName, 1) = none ∧
          scope.links.find? (0, "title") = none) ∧
        (before.db.run fun _ => Scope.add copy).1.toOption = some 0 ∧ flushed.1 = .ok () ∧
        ∃ last ∈ flushed.2.scope, last.entries.length = 1 := by
    decide +kernel
  refine ⟨copy, hcopy, ?_⟩
  have hregistered : copy.model ∈ titledNotes.registry.models :=
    (titledNotes_fresh.intact hretitled).record?_registered hcopy
  have hmeets : Course.Meets terms { db := titledNotes }
      (noteIsDropped ++ .deed (.add copy) :: [Deed.act (.assign 0 "body" (.text "c"))].map .deed) := by
    have hintact := titledNotes_fresh.intact hdropped
    refine hdropped.append ⟨?_, Course.meets_of_brings_nothing (by simp) False.elim _⟩
    generalize noteIsDropped.foldl Course.step { db := titledNotes } = before at hintact ⊢
    refine ⟨?_, False.elim, False.elim⟩
    rintro record ⟨⟩
    exact hintact.mem_models hregistered
  have hlawful : ∀ event ∈ noteIsDropped ++ .deed (.add copy) ::
      [Deed.act (.assign 0 "body" (.text "c"))].map .deed, event.Lawful titledNotes.registry := by
    have hunmarked : copy.KeyUnmarked := by
      intro key hprimary
      simpa [hprimary] using hkey
    simpa [noteIsDropped, noteIsRetitled, noteIsFound, Event.Lawful] using hunmarked
  have hmain := @added_record_is_flushed _ titledNotes_fresh terms noteIsDropped copy
    [.act (.assign 0 "body" (.text "c"))] hmeets hlawful 1 hid 0 (by simp)
  -- From here on the course is not computed any more.
  generalize noteIsDropped.foldl Course.step { db := titledNotes } = before at *
  have hsole : last.Sole 0 := by
    intro other _ _ _ _ _ hother _ _ _ _
    exact Nat.lt_one_iff.1 (hlength ▸ Scope.lt_of_standing hother)
  have hnew : ∀ other, scope.identity.find? (copy.modelName, 1) = some other → scope.Stays other := by
    intro other hother
    cases hfresh.symm.trans hother
  obtain ⟨-, hcolumns⟩ := hmain scope _ last hscope hnew (toOption_eq_some.1 hadd) (Prod.ext hflush rfl) hlast
    fun _ => hsole
  obtain ⟨found, stored, hfound, hstored, hshown⟩ := hcolumns column hcolumn hdata hmarked
    (hname ▸ hlinks) ⟨fun _ _ _ => hname ▸ by decide, trivial⟩
  obtain rfl := Except.ok.inj ((toOption_eq_some.1 hvalue).symm.trans hfound)
  rw [hstored, Except.toOption, Option.bind_some] at hbind
  rw [htable, hname] at hshown
  exact ⟨hflush, last, stored, hlast, hshown, hbind⟩

/-- A copy of the note with the new title is added while the note is to be deleted. -/
theorem deleted_note_stays_deleted :
    let before := noteIsRetitled.foldl Course.step { db := titledNotes }
    ∃ copy ∈ before.record? 0, copy.id = some 1 ∧ copy.isChanged "title" = true ∧
      let deleted := before.step (.deed (.act (.delete 0)))
      let flushed := (deleted.step (.deed (.add copy))).db.run Scope.flush
      (deleted.db.run fun _ => Scope.add copy).1.toOption = some 0 ∧ flushed.1 = .ok () ∧
        ∃ last ∈ flushed.2.scope,
          (last.visibleRow flushed.2.environment copy.model.tableName 1).toOption.map (·.isNone) =
            some true := by
  decide +kernel

end RecordStore
