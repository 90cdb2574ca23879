import RecordStore.Proofs.Integrity.ForeignKeys
import RecordStore.Proofs.Integrity.Tasks
import RecordStore.Proofs.Scope.Underway

/-!
# Flushes that fail

A flush changes records before it knows that it will succeed: it gives keys and defaults and fills links.
When it fails, wherever that happens, it has staged nothing, every record stands where it stood, and what was
assigned to records is still there and still marked (`failed_flush_forgets_nothing`).  The only assigned
values that change are references to records that had no key: they become the keys that were given.

This takes for granted that nobody marks the key of a record, which no change that is offered does
(`Task.lawful`).
-/

namespace RecordStore

/-! ## Events that mark no keys -/

/-- A change of records of a registry leaves their keys without a mark. -/
def Edit.Lawful (registry : Registry) (edit : Edit) : Prop :=
  ∀ record changed, record.model ∈ registry.models → record.KeyUnmarked →
    edit.change record = .ok changed → changed.KeyUnmarked

/-- An event brings no record with a mark on its key, and changes no record so that it has one. -/
def Event.Lawful (registry : Registry) : Event → Prop
  | .deed (.add record) => record.KeyUnmarked
  | .deed (.edit _ edit) => edit.Lawful registry
  | _ => True

namespace Edit

variable {registry : Registry} {edit : Edit}

/-- All that a change does is to store a value in a column that is no primary key, marked or not. -/
def SparesKeys (registry : Registry) (edit : Edit) : Prop :=
  ∀ record changed, record.model ∈ registry.models → edit.change record = .ok changed →
    ∃ column ∈ record.model.columns, column.primaryKey = false ∧
      ∃ value marked, changed = record.putBack column.name value marked

/-- A change that spares primary keys does not mark them. -/
theorem SparesKeys.lawful (h : edit.SparesKeys registry) (hregistry : registry.Consistent) :
    edit.Lawful registry := by
  intro record changed hmodel hunmarked hchange
  obtain ⟨column, hcolumn, hdata, value, marked, rfl⟩ := h record changed hmodel hchange
  obtain ⟨_, -, hcompiled⟩ := hregistry.mem_compiled hmodel
  intro key hkey
  rw [(Record.putBack_keeps ..).1] at hkey
  rw [Record.isChanged_putBack, if_neg (hcompiled.name_ne_key hcolumn hdata hkey).symm]
  exact hunmarked key hkey

variable (hregistry : registry.Consistent)

include hregistry

theorem sparesKeys_set (attr : String) (value : Value) : (set attr value).SparesKeys registry := by
  intro record changed hmodel h
  change record.set attr value = .ok changed at h
  obtain ⟨_, -, hcompiled⟩ := hregistry.mem_compiled hmodel
  unfold Record.set at h
  cases hcolumn : record.model.column? attr with
  | none => simp [hcolumn] at h
  | some column =>
      obtain ⟨hmem, rfl⟩ := (find?_name_eq_some_iff hcompiled.columns_nodup).1 hcolumn
      by_cases hprimary : column.primaryKey = true
      · simp [hcolumn, hprimary] at h
      · simp only [hcolumn, hprimary, Bool.false_eq_true, if_false] at h
        cases h
        exact ⟨column, hmem, Bool.eq_false_iff.2 hprimary, value, true, rfl⟩

/-- What can be changed in place is in a column that is no primary key. -/
theorem ChangesInPlace.sparesKeys {attr : String} {becomes : Content → Content → Prop}
    (h : edit.ChangesInPlace attr becomes) : edit.SparesKeys registry := by
  intro record changed hmodel hchange
  obtain ⟨viewed, content, hviewed, -, rfl⟩ := h record changed hchange
  obtain ⟨_, -, hcompiled⟩ := hregistry.mem_compiled hmodel
  obtain ⟨column, hcolumn, htracked, -⟩ := Record.of_mutableValue hviewed
  obtain ⟨hmem, rfl⟩ := (find?_name_eq_some_iff hcompiled.columns_nodup).1 hcolumn
  exact ⟨column, hmem, hcompiled.of_tracked hmem htracked, _, _, rfl⟩

end Edit

/-- A task is an act or spares primary keys. -/
theorem Task.act_or_sparesKeys {registry : Registry} (hregistry : registry.Consistent) (task : Task) :
    (∃ act, task.deed = .act act) ∨ ∃ handle edit, task.deed = .edit handle edit ∧
      edit.SparesKeys registry := by
  rcases task.act_or_inPlace with ⟨act, rfl⟩ | ⟨handle, attr, edit, hdeed, hchanges⟩
  · exact Or.inl ⟨act, rfl⟩
  · exact Or.inr ⟨handle, edit, hdeed, hchanges.sparesKeys hregistry⟩

/-- Whatever is done in a scope with its own records is lawful. -/
theorem Task.lawful {registry : Registry} (hregistry : registry.Consistent) (task : Task) :
    Event.Lawful registry (.deed task.deed) := by
  rcases task.act_or_sparesKeys hregistry with ⟨act, hdeed⟩ | ⟨handle, edit, hdeed, hspares⟩
  · rw [hdeed]
    trivial
  · rw [hdeed]
    exact hspares.lawful hregistry

/-! ## Orderly courses -/

namespace Scope

variable {env : Environment} {scope : Scope}

theorem perform_orderly (hregistry : env.registry.Consistent) (hrooted : scope.Rooted env)
    (h : scope.Orderly) {deed : Deed} (hlawful : Event.Lawful env.registry (.deed deed))
    (hregistered : ∀ record, deed = .add record → record.model ∈ env.registry.models) :
    (deed.perform env).Ends scope (fun _ after => after.Orderly) (fun after => after.Orderly) := by
  -- A change is lawful as long as the record is one of the scope.
  have hedit : ∀ (handle : Handle) (edit : Edit), edit.Lawful env.registry →
      (updateRecord handle edit.change).Ends scope (fun _ after => after.Orderly)
        (fun after => after.Orderly) := by
    intro handle edit hkeeps
    refine updateRecord_orderly h handle ?_
    intro entry hentry changed hchanged
    obtain ⟨hmodel, hid⟩ := edit.keeps _ _ hchanged
    have hknown := hrooted.mem_models hentry
    exact ⟨hmodel, hid, hkeeps _ _ hknown (h.entries handle entry hentry) hchanged⟩
  cases deed with
  | add record =>
      exact ScopeM.ends_discard (add_orderly hregistry hrooted h (hregistered record rfl) hlawful)
  | edit handle edit => exact hedit handle edit hlawful
  | act act =>
      have hlook : Lookable env fun after =>
          scope.Reaches env { grounded := False, undeleted := False } after ∧ after.Orderly :=
        lookable_orderly hregistry hrooted
      have hlooksUp : ∀ act : Act, act.LooksUp → (act.perform env).Ends scope
          (fun _ after => after.Orderly) (fun after => after.Orderly) := fun act hlooks =>
        (Act.keeps_of_looksUp hlook hregistry hlooks scope ⟨Relation.ReflTransGen.refl, h⟩).mono
          (fun _ _ hdone => hdone.2) fun _ hfailed => hfailed.2
      change (act.perform env).Ends scope _ _
      cases act with
      | create model => exact ScopeM.ends_discard (create_orderly h model)
      | assign handle attr value =>
          exact hedit handle (.set attr value) ((Edit.sparesKeys_set hregistry attr value).lawful hregistry)
      | setReference handle field target =>
          exact setReference_orderly hregistry hrooted h handle field target
      | delete handle => exact delete_orderly h handle
      | _ => exact hlooksUp _ (by trivial)

end Scope

namespace Course

variable {registry : Registry} {terms : Terms} {course : Course}

/-- The open scope, if there is one, is orderly. -/
def Orderly (course : Course) : Prop :=
  ∀ scope, course.db.scope = some scope → scope.Orderly

theorem orderly_of_closed (h : course.db.scope = none) : course.Orderly := by
  intro scope hscope
  simp [h] at hscope

theorem Orderly.step (h : course.Orderly) (hintact : course.Intact registry terms)
    (hregistry : registry.Consistent) {event : Event} (hallows : course.Allows terms event)
    (hlawful : event.Lawful registry) : (course.step event).Orderly := by
  have hsame : course.db.registry = registry := hintact.registry_eq
  subst hsame
  refine scope_step Scope.orderly_empty ?_ h
  rintro deed scope rfl hscope
  have hstart : ({ scope with supply := course.db.supply } : Scope).Orderly :=
    (h scope hscope).of_same rfl rfl
  exact Scope.perform_orderly hregistry (hintact.opened scope hscope).rooted hstart hlawful
    fun record hadd => hallows.registered record (congrArg Event.deed hadd)

theorem Orderly.foldl_step (h : course.Orderly) (hintact : course.Intact registry terms)
    (hregistry : registry.Consistent)
    (hcount : ∀ model ∈ registry.models, model.columns.length < 4294967296) {events : List Event}
    (hmeets : course.Meets terms events) (hlawful : ∀ event ∈ events, event.Lawful registry) :
    (events.foldl Course.step course).Orderly :=
  hintact.keeps_events hregistry hcount Orderly (Event.Lawful registry)
    (fun _ _ hintact hallows hlawful h => h.step hintact hregistry hallows hlawful) hmeets hlawful h

end Course

/-- The scopes of a fresh database are orderly after any course of lawful events. -/
theorem Database.Fresh.orderly {db : Database} (h : db.Fresh) {terms : Terms} {events : List Event}
    (hmeets : Course.Meets terms { db } events) (hlawful : ∀ event ∈ events, event.Lawful db.registry) :
    (events.foldl Course.step { db }).Orderly :=
  (Course.orderly_of_closed h.closed).foldl_step (Course.intact_start h.closed h.empty) h.consistent
    h.counted hmeets hlawful

/-! ## What a flush leaves when it fails -/

namespace Scope.Underway

variable {env : Environment} {start scope : Scope} {handle : Handle} {entry : Entry} {attr : String}

theorem states_eq (h : start.Underway scope) :
    scope.entries.map (·.state) = start.entries.map (·.state) := by
  refine List.ext_getElem? ?_
  intro handle
  rw [List.getElem?_map, List.getElem?_map]
  cases hentry : start.entries[handle]? with
  | some entry =>
      obtain ⟨record, hrecord, -⟩ := h.entries handle entry hentry
      simp [hrecord]
  | none =>
      have hnone : scope.entries[handle]? = none := by
        rw [List.getElem?_eq_none_iff] at hentry ⊢
        exact h.length ▸ hentry
      simp [hnone]

/-- A marked attribute keeps its mark and its value, unless a link was filled. -/
theorem marked (h : start.Underway scope) (hstart : start.Orderly)
    (hentry : start.entries[handle]? = some entry) :
    ∃ record, scope.entries[handle]? = some { entry with record } ∧
      record.model = entry.record.model ∧
      ∀ attr, entry.record.isChanged attr = true → record.isChanged attr = true ∧
        (record.get attr = entry.record.get attr ∨ ∃ target id,
          start.links.find? (handle, attr) = some target ∧ start.LeadsTo handle attr target ∧
          scope.linkedId? target = some id ∧ record.get attr = .ok (.integer id)) := by
  obtain ⟨record, hrecord, hmodel, -, htreated⟩ := h.entries handle entry hentry
  refine ⟨record, hrecord, hmodel, ?_⟩
  intro attr hmarked
  cases htreated attr with
  | kept hvalue hmark =>
      refine ⟨hmark.trans hmarked, Or.inl ?_⟩
      simp [Record.get, Record.unknown, Record.modelName, hvalue, hmodel]
  | filled target id hlink hid hvalue hmark =>
      exact ⟨hmark, Or.inr ⟨target, id, hlink, hstart.links handle attr target hlink, hid,
        Record.get_eq_ok.2 hvalue⟩⟩
  | given _ _ _ hunmarked => simp [hmarked] at hunmarked

end Scope.Underway

/-- A flush that fails stages nothing and forgets nothing.  Take a database to which nothing has happened and
any course of events that mark no keys, in which the records that come from outside are of its models.  If
the open scope cannot be flushed, wherever the flush stops, then the staged rows are as they were, every
record stands where it stood, and the same rows are visible.  Every attribute that was marked is still
marked, with the value that it had, unless it was the column of a link, which then holds the key of the
record that the link led to. -/
theorem failed_flush_forgets_nothing {db : Database} (hfresh : db.Fresh) {terms : Terms}
    {events : List Event} (hmeets : Course.Meets terms { db } events)
    (hlawful : ∀ event ∈ events, event.Lawful db.registry) :
    let course := events.foldl Course.step { db }
    let env := course.db.environment
    ∀ scope error after, course.db.scope = some scope →
      course.db.run Scope.flush = (.error error, after) →
        after.storage = course.db.storage ∧ ∃ left, after.scope = some left ∧
          left.staged = scope.staged ∧
          left.entries.map (·.state) = scope.entries.map (·.state) ∧
          (∀ table number, left.visibleRow env table number = scope.visibleRow env table number) ∧
          (∀ table, left.visibleRows env table = scope.visibleRows env table) ∧
          ∀ (handle : Handle) (entry : Entry), scope.entries[handle]? = some entry →
            ∃ record, left.entries[handle]? = some { entry with record } ∧
              record.model = entry.record.model ∧
              ∀ attr, entry.record.isChanged attr = true → record.isChanged attr = true ∧
                (record.get attr = entry.record.get attr ∨ ∃ target id,
                  scope.links.find? (handle, attr) = some target ∧
                  scope.LeadsTo handle attr target ∧ left.linkedId? target = some id ∧
                  record.get attr = .ok (.integer id)) := by
  intro course env scope error after hscope hflush
  have hintact : course.Intact db.registry terms := hfresh.intact hmeets
  have hstart : ({ scope with supply := course.db.supply } : Scope).Orderly :=
    (hfresh.orderly hmeets hlawful scope hscope).of_same rfl rfl
  have hends := Scope.flush_underway (hintact.registry_consistent hfresh.consistent)
    (hintact.opened scope hscope).rooted hstart
  -- Until the last step, which cannot fail, a flush is underway and stages nothing.
  rcases Database.run_cases hscope Scope.flush hends with ⟨_, _, hrun, -⟩ | ⟨_, left, hrun, hleft⟩
  · cases hflush.symm.trans hrun
  · cases hflush.symm.trans hrun
    refine ⟨rfl, left, rfl, hleft.staged, hleft.states_eq, ?_, ?_, ?_⟩
    · intro table number
      exact Scope.visibleRow_congr (by rw [hleft.staged])
    · intro table
      simp [Scope.visibleRows, hleft.staged]
    · intro handle entry hentry
      obtain ⟨record, hrecord, hmodel, hattrs⟩ := hleft.marked hstart hentry
      refine ⟨record, hrecord, hmodel, ?_⟩
      intro attr hmarked
      obtain ⟨hmark, hvalue | ⟨target, id, hlink, hleads, hid, hvalue⟩⟩ := hattrs attr hmarked
      · exact ⟨hmark, Or.inl hvalue⟩
      · exact ⟨hmark, Or.inr ⟨target, id, hlink, hleads, hid, hvalue⟩⟩

/-- Two holders are made, of which only the first refers to a link. -/
def oneHolderLacksLink : List Event := [
  .createSchema, .openScope, .deed (.act (.create "Link")), .deed (.act (.create "Holder")),
  .deed (.act (.setReference 1 "link" 0)), .deed (.act (.create "Holder"))]

/-- The second holder cannot be flushed; all records are still new, and the first holder keeps its mark. -/
theorem failed_flush_forgets_nothing_of_holder :
    let course := oneHolderLacksLink.foldl Course.step { db := linksAndHolders }
    ∃ scope error after left, course.db.scope = some scope ∧
      course.db.run Scope.flush = (.error error, after) ∧ after.scope = some left ∧
      left.staged = scope.staged ∧ left.entries.map (·.state) = [.pending, .pending, .pending] ∧
      ∃ entry, left.entries[1]? = some entry ∧ entry.record.isChanged "_link_id" = true := by
  let terms : Terms := { grounded := True, undeleted := True }
  have hmeets : Course.Meets terms { db := linksAndHolders } oneHolderLacksLink :=
    Course.meets_of_brings_nothing (by simp [oneHolderLacksLink]) (by simp [oneHolderLacksLink]) _
  have hlawful : ∀ event ∈ oneHolderLacksLink, event.Lawful linksAndHolders.registry := by
    simp [oneHolderLacksLink, Event.Lawful]
  obtain ⟨hfails, scope, hscope, hstates, entry, hentry, hmarked⟩ :
      let course := oneHolderLacksLink.foldl Course.step { db := linksAndHolders }
      (course.db.run Scope.flush).1.toOption = none ∧ ∃ scope ∈ course.db.scope,
        scope.entries.map (·.state) = [.pending, .pending, .pending] ∧
        ∃ entry ∈ scope.entries[1]?, entry.record.isChanged "_link_id" = true := by
    decide +kernel
  have hmain := failed_flush_forgets_nothing linksAndHolders_fresh hmeets hlawful
  -- From here on the course is not computed any more.
  generalize oneHolderLacksLink.foldl Course.step { db := linksAndHolders } = course at *
  obtain ⟨error, herror⟩ := toOption_eq_none.1 hfails
  obtain ⟨-, left, hleft, hstaged, hkept, -, -, hattrs⟩ :=
    hmain scope error _ hscope (Prod.ext herror rfl)
  obtain ⟨record, hrecord, -, hmarks⟩ := hattrs 1 entry hentry
  exact ⟨scope, error, _, left, hscope, Prod.ext herror rfl, hleft, hstaged, hkept.trans hstates, _,
    hrecord, (hmarks _ hmarked).1⟩

end RecordStore
