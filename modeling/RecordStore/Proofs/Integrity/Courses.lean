import RecordStore.Proofs.Persistence.Acts
import RecordStore.Proofs.Records.Retaining
import RecordStore.Proofs.Registry.Calls
import RecordStore.Proofs.Scope.Intact
import RecordStore.Proofs.Scope.Reaching
import RecordStore.Proofs.Storage.Schemas
import RecordStore.Tracked

/-!
# Courses of events

A course of events takes a database through scopes, one after the other, with everything that can be
done in them: records are created, looked up, changed, deleted and flushed, and records that come from
outside are added, such as copies that were kept from earlier scopes.  Between scopes the schema may be
made and dropped.

The storage and the open scope of a course are intact at any time (`Course.Intact.foldl_step`), in
particular when it starts from a database to which nothing has happened (`Database.Fresh.intact`).
-/

namespace RecordStore

/-! ## What can be done -/

/-- A change of a record by whoever holds it, which leaves its model and its key. -/
structure Edit where
  change : Record → Except Error Record
  keeps : ∀ record changed, change record = .ok changed →
    changed.model = record.model ∧ changed.id = record.id

namespace Edit

/-- Assigns a column. -/
def set (attr : String) (value : Value) : Edit where
  change record := record.set attr value
  keeps record changed h := by
    unfold Record.set at h
    cases hcolumn : record.model.column? attr with
    | none =>
        simp only [hcolumn] at h
        cases h
    | some column =>
        simp only [hcolumn] at h
        by_cases hprimary : column.primaryKey = true
        · rw [if_pos hprimary] at h
          cases h
        · rw [if_neg hprimary] at h
          cases h
          exact ⟨rfl, rfl⟩

/-- Changes a list in place. -/
def list (attr : String) (f : TrackedList → Except Error TrackedList) : Edit where
  change record := do
    let view ← record.listView attr
    return record.putList attr (← f view)
  keeps record changed h := by
    obtain ⟨_, _, -, -, rfl⟩ := bind_map_eq_ok.1 h
    exact Record.putBack_keeps ..

/-- Changes a mapping in place. -/
def mapping (attr : String) (f : TrackedMapping → Except Error TrackedMapping) : Edit where
  change record := do
    let view ← record.mappingView attr
    return record.putMapping attr (← f view)
  keeps record changed h := by
    obtain ⟨_, _, -, -, rfl⟩ := bind_map_eq_ok.1 h
    exact Record.putBack_keeps ..

/-- Changes a set in place. -/
def members (attr : String) (f : TrackedSet → Except Error TrackedSet) : Edit where
  change record := do
    let view ← record.setView attr
    return record.putSet attr (← f view)
  keeps record changed h := by
    obtain ⟨_, _, -, -, rfl⟩ := bind_map_eq_ok.1 h
    exact Record.putBack_keeps ..

end Edit

/-- What can be done in an open scope. -/
inductive Deed where
  | act (act : Act)
  /-- A record that comes from outside is added. -/
  | add (record : Record)
  | edit (handle : Handle) (edit : Edit)

/-- Does a deed, whatever it gives. -/
def Deed.perform (env : Environment) : Deed → ScopeM Unit
  | .act what => what.perform env
  | .add record => discard (Scope.add record)
  | .edit handle how => Scope.updateRecord handle how.change

/-- What can happen to a database. -/
inductive Event where
  | openScope
  | deed (deed : Deed)
  | commit
  | rollback
  | createSchema
  | dropSchema

/-- A database, with the rows that committed scopes have deleted since the schema was dropped last. -/
structure Course where
  db : Database
  deleted : List (String × UInt64) := []

namespace Course

/-- The rows that are deleted when the open scope is committed. -/
def deletions (course : Course) : List (String × UInt64) :=
  match (course.db.run Scope.flush).2.scope with
  | some scope => scope.deletions
  | none => []

/-- The course after an event.  The schema is made and dropped only between scopes. -/
def step (course : Course) : Event → Course
  | .openScope =>
      match course.db.openScope with
      | .ok opened => { course with db := opened }
      | .error _ => course
  | .deed deed => { course with db := (course.db.run fun env => deed.perform env).2 }
  | .commit =>
      match course.db.commit with
      | (.ok (), after) => { db := after, deleted := course.deletions ++ course.deleted }
      | (.error _, after) => { course with db := after }
  | .rollback => { course with db := course.db.rollback }
  | .createSchema =>
      if course.db.scope.isSome then course else { course with db := course.db.createSchema.2 }
  | .dropSchema =>
      if course.db.scope.isSome then course
      else
        match course.db.dropSchema with
        | (.ok (), after) => { db := after }
        | (.error _, after) => { course with db := after }

/-! ## Terms of a course -/

/-- Whether an event is a deed in which a record comes from outside. -/
def Brings (event : Event) (record : Record) : Prop :=
  event = .deed (.add record)

/-- A record with a key has its row in the open scope. -/
def HasRow (course : Course) (record : Record) : Prop :=
  ∀ id, record.id = some id → ∀ scope, course.db.scope = some scope → 0 ≤ id.toInt ∧
    ∃ row, scope.visibleRow course.db.environment record.model.tableName id.toUInt64 = .ok (some row)

/-- Whether an event may happen: records that come from outside are of registered models, and the
terms are met. -/
structure Allows (terms : Terms) (course : Course) (event : Event) : Prop where
  registered : ∀ record, Brings event record → record.model ∈ course.db.registry.models
  grounded : terms.grounded → ∀ record, Brings event record → course.HasRow record
  undeleted : terms.undeleted → ∀ handle, event ≠ .deed (.act (.delete handle))

/-- Whether events may happen one after the other. -/
def Meets (terms : Terms) : Course → List Event → Prop
  | _, [] => True
  | course, event :: rest => course.Allows terms event ∧ (course.step event).Meets terms rest

/-- Events that bring no record from outside may happen at any time, and delete records unless nothing
may be deleted. -/
theorem meets_of_brings_nothing {terms : Terms} {events : List Event}
    (hadd : ∀ record, .deed (.add record) ∉ events)
    (hdelete : terms.undeleted → ∀ handle, .deed (.act (.delete handle)) ∉ events) (course : Course) :
    course.Meets terms events := by
  induction events generalizing course with
  | nil => trivial
  | cons event rest ih =>
      have hnothing : ∀ record, ¬Brings event record := by
        rintro record rfl
        exact hadd record List.mem_cons_self
      refine ⟨⟨?_, ?_, ?_⟩, ih ?_ ?_ _⟩
      · exact fun record hrecord => absurd hrecord (hnothing record)
      · exact fun _ record hrecord => absurd hrecord (hnothing record)
      · rintro hterms handle rfl
        exact hdelete hterms handle List.mem_cons_self
      · exact fun record hmem => hadd record (List.mem_cons_of_mem _ hmem)
      · exact fun hterms handle hmem => hdelete hterms handle (List.mem_cons_of_mem _ hmem)

theorem meets_append {terms : Terms} {events later : List Event} {course : Course} :
    course.Meets terms (events ++ later) ↔
      course.Meets terms events ∧ (events.foldl Course.step course).Meets terms later := by
  induction events generalizing course with
  | nil => simp [Meets]
  | cons event rest ih => simp only [List.cons_append, Meets, List.foldl_cons, ih, and_assoc]

theorem Meets.append {terms : Terms} {events later : List Event} {course : Course}
    (h : course.Meets terms events) (hlater : (events.foldl Course.step course).Meets terms later) :
    course.Meets terms (events ++ later) :=
  meets_append.2 ⟨h, hlater⟩

/-! ## Deeds, one after the other -/

/-- Each of some deeds that are done one after the other is allowed when it is done. -/
def Throughout (allowed : Course → Deed → Prop) : Course → List Deed → Prop
  | _, [] => True
  | course, deed :: rest => allowed course deed ∧ (course.step (.deed deed)).Throughout allowed rest

theorem throughout_of_forall {allowed : Course → Deed → Prop} {deeds : List Deed}
    (h : ∀ deed ∈ deeds, ∀ course, allowed course deed) (course : Course) :
    course.Throughout allowed deeds := by
  induction deeds generalizing course with
  | nil => trivial
  | cons deed rest ih =>
      have hrest : ∀ other ∈ rest, ∀ course, allowed course other :=
        fun other hother => h other (List.mem_cons_of_mem _ hother)
      exact ⟨h deed List.mem_cons_self course, ih hrest _⟩

theorem Throughout.and {allowed allowed' : Course → Deed → Prop} {deeds : List Deed} {course : Course}
    (h : course.Throughout allowed deeds) (h' : course.Throughout allowed' deeds) :
    course.Throughout (fun course deed => allowed course deed ∧ allowed' course deed) deeds := by
  induction deeds generalizing course with
  | nil => trivial
  | cons deed rest ih => exact ⟨⟨h.1, h'.1⟩, ih h.2 h'.2⟩

/-! ## Reading a course -/

/-- What a stored row holds in a column, if there is such a row. -/
def cell? (course : Course) (table : String) (number : UInt64) (column : String) : Option Value := do
  let row ← (course.db.storage.row? table number).toOption.join
  let columns ← (decodeRow row.data).toOption
  return storedColumn columns column

theorem cell?_eq_some {course : Course} {table : String} {number : UInt64} {column : String}
    {value : Value} : course.cell? table number column = some value ↔
      ∃ row columns, course.db.storage.row? table number = .ok (some row) ∧
        decodeRow row.data = .ok columns ∧ storedColumn columns column = value := by
  unfold cell?
  constructor
  · intro h
    obtain ⟨row, hrow, h⟩ := Option.bind_eq_some_iff.1 h
    obtain ⟨columns, hcolumns, h⟩ := Option.bind_eq_some_iff.1 h
    exact ⟨row, columns, join_toOption_eq_some.1 hrow, toOption_eq_some.1 hcolumns, Option.some.inj h⟩
  · rintro ⟨row, columns, hrow, hcolumns, rfl⟩
    refine Option.bind_eq_some_iff.2 ⟨row, join_toOption_eq_some.2 hrow, ?_⟩
    exact Option.bind_eq_some_iff.2 ⟨columns, toOption_eq_some.2 hcolumns, rfl⟩

/-- A record of the open scope, as its holder can keep it. -/
def record? (course : Course) (handle : Handle) : Option Record := do
  let scope ← course.db.scope
  let entry ← scope.entries[handle]?
  return entry.record

end Course

/-! ## Deeds as chains of moves -/

namespace Deed

variable {env : Environment} {terms : Terms} {scope : Scope}

theorem act_reaches (hregistry : env.registry.Consistent) (hrooted : scope.Rooted env) (act : Act)
    (hdelete : terms.undeleted → ∀ handle, act ≠ .delete handle) :
    (act.perform env).Ends scope (fun _ => scope.Reaches env terms) (scope.Reaches env terms) := by
  have hrefl : scope.Reaches env terms scope := Relation.ReflTransGen.refl
  have hlook : Scope.Lookable env (scope.Reaches env terms) := Scope.lookable_reaches hrooted
  have hsteady : ∀ after, scope.Steady env after → scope.Reaches env terms after := fun _ hafter =>
    Scope.reaches_steady hrefl hafter
  cases act with
  | create model => exact ScopeM.ends_discard (Scope.create_reaches hregistry model scope hrefl)
  | assign handle attr value =>
      exact (Scope.updateRecord_steady env scope handle (Edit.set attr value).keeps).mono
        (fun _ => hsteady) hsteady
  | setReference handle field target =>
      exact (Scope.setReference_steady env scope handle field target).mono (fun _ => hsteady) hsteady
  | delete handle =>
      refine Scope.delete_reaches ?_ handle scope hrefl
      intro hterms
      exact hdelete hterms handle rfl
  | _ => exact Act.keeps_of_looksUp hlook hregistry (by trivial) scope hrefl

theorem perform_reaches {course : Course} {deed : Deed} (hregistry : course.db.registry.Consistent)
    (hscope : course.db.scope = some scope)
    (hrooted : ({ scope with supply := course.db.supply } : Scope).Rooted course.db.environment)
    (hallows : course.Allows terms (.deed deed)) :
    (deed.perform course.db.environment).Ends { scope with supply := course.db.supply }
      (fun _ => ({ scope with supply := course.db.supply } : Scope).Reaches course.db.environment terms)
      (({ scope with supply := course.db.supply } : Scope).Reaches course.db.environment terms) := by
  have hrefl : ({ scope with supply := course.db.supply } : Scope).Reaches course.db.environment terms
      { scope with supply := course.db.supply } := Relation.ReflTransGen.refl
  cases deed with
  | act act =>
      refine act_reaches hregistry hrooted act ?_
      rintro hterms handle rfl
      exact hallows.undeleted hterms handle rfl
  | add record =>
      refine ScopeM.ends_discard (Scope.add_reaches hregistry hrooted hrefl
        (hallows.registered record rfl) ?_)
      intro hterms id hid
      exact hallows.grounded hterms record rfl id hid scope hscope
  | edit handle edit =>
      exact (Scope.updateRecord_steady _ _ handle edit.keeps).mono
        (fun _ _ => Scope.reaches_steady hrefl) fun _ => Scope.reaches_steady hrefl

end Deed

/-! ## Intact courses -/

/-- A change of the storage fails and leaves the storage as it was, or succeeds and is kept. -/
theorem Database.changeStorage_cases (db : Database) (f : Storage → Except Error Storage) :
    (∃ error, db.changeStorage f = (.error error, { db with used := true })) ∨
      ∃ storage, f db.storage = .ok storage ∧
        db.changeStorage f = (.ok (), { db with storage, used := true }) := by
  unfold Database.changeStorage
  cases hchange : f db.storage with
  | error error => exact Or.inl ⟨error, rfl⟩
  | ok storage => exact Or.inr ⟨storage, rfl, rfl⟩

namespace Course

/-- What holds of a database at any time in a course of events. -/
structure Intact (registry : Registry) (terms : Terms) (course : Course) : Prop where
  registry_eq : course.db.registry = registry
  cataloged : ∀ contents, course.db.storage.read = .ok contents → ∀ model ∈ registry.models,
    contents.Cataloged model.tableName
  stored : ∀ supply, ({ supply } : Scope).Intact course.db.environment terms course.deleted
  opened : ∀ scope, course.db.scope = some scope →
    ({ scope with supply := course.db.supply } : Scope).Intact course.db.environment terms
      course.deleted

variable {registry : Registry} {terms : Terms} {course : Course} {scope : Scope}

/-- While no scope is open, only the storage has to be intact. -/
theorem intact_of_closed (hscope : course.db.scope = none) (hregistry : course.db.registry = registry)
    (hcataloged : ∀ contents, course.db.storage.read = .ok contents → ∀ model ∈ registry.models,
      contents.Cataloged model.tableName)
    (hstored : ∀ supply, ({ supply } : Scope).Intact course.db.environment terms course.deleted) :
    course.Intact registry terms where
  registry_eq := hregistry
  cataloged := hcataloged
  stored := hstored
  opened scope hopen := by
    rw [hscope] at hopen
    cases hopen

/-- A database in which no scope is open is intact over a storage that holds nothing. -/
theorem intact_start {db : Database} (hscope : db.scope = none)
    (hempty : db.storage.contents.getD {} = {}) : Intact db.registry terms { db } := by
  refine intact_of_closed hscope rfl ?_ fun supply => Scope.Intact.of_no_rows ?_ supply
  · intro contents hread model _
    obtain rfl := (Storage.read_eq_ok hread).trans hempty
    exact ⟨fun _ hnone => by (cases hnone), fun _ => rfl⟩
  · intro model _ number row hrow
    obtain ⟨contents, hread, hfound⟩ := Storage.row?_eq_ok.1 hrow
    obtain rfl := (Storage.read_eq_ok hread).trans hempty
    cases hfound

namespace Intact

theorem registry_consistent (h : course.Intact registry terms) (hregistry : registry.Consistent) :
    course.db.registry.Consistent := by
  rw [h.registry_eq]
  exact hregistry

theorem mem_models (h : course.Intact registry terms) {model : Model} (hmodel : model ∈ registry.models) :
    model ∈ course.db.environment.registry.models := by
  show model ∈ course.db.registry.models
  rw [h.registry_eq]
  exact hmodel

theorem counted (h : course.Intact registry terms)
    (hcount : ∀ model ∈ registry.models, model.columns.length < 4294967296) :
    ∀ model ∈ course.db.environment.registry.models, model.columns.length < 4294967296 := by
  show ∀ model ∈ course.db.registry.models, _
  rw [h.registry_eq]
  exact hcount

/-- The records of the open scope are of registered models. -/
theorem record?_registered (h : course.Intact registry terms) {handle : Handle} {record : Record}
    (hrecord : course.record? handle = some record) : record.model ∈ registry.models := by
  obtain ⟨scope, hscope, hrecord⟩ := Option.bind_eq_some_iff.1 hrecord
  obtain ⟨entry, hentry, hrecord⟩ := Option.bind_eq_some_iff.1 hrecord
  cases hrecord
  have hregistered := (h.opened scope hscope).rooted.registered handle entry.standing
    (Scope.standing_of_entry hentry)
  rw [← h.registry_eq]
  exact hregistered

/-- An action that is a chain of moves leaves the course intact. -/
theorem run (h : course.Intact registry terms) (hregistry : registry.Consistent)
    (hcount : ∀ model ∈ registry.models, model.columns.length < 4294967296) {α : Type}
    {action : Environment → ScopeM α}
    (hreaches : ∀ scope, course.db.scope = some scope →
      (action course.db.environment).Ends { scope with supply := course.db.supply }
        (fun _ => ({ scope with supply := course.db.supply } : Scope).Reaches
          course.db.environment terms)
        (({ scope with supply := course.db.supply } : Scope).Reaches course.db.environment terms)) :
    ({ course with db := (course.db.run action).2 } : Course).Intact registry terms := by
  have hresume : ∀ scope after, course.db.scope = some scope →
      ({ scope with supply := course.db.supply } : Scope).Reaches course.db.environment terms after →
        ({ course with db := course.db.resume after } : Course).Intact registry terms := by
    intro scope after hscope hafter
    refine ⟨h.registry_eq, h.cataloged, h.stored, ?_⟩
    intro last hlast
    cases hlast
    exact (h.opened scope hscope).reaches (h.registry_consistent hregistry) (h.counted hcount) hafter
  cases hscope : course.db.scope with
  | none =>
      rw [Database.run_of_none hscope]
      exact h
  | some scope =>
      obtain ⟨after, hrun, hafter⟩ := Database.run_keeps hscope action (hreaches scope hscope)
      rw [hrun]
      exact hresume scope after hscope hafter

/-- A flush that succeeds leaves an intact scope. -/
theorem flushed (h : course.Intact registry terms) (hregistry : registry.Consistent)
    (hcount : ∀ model ∈ registry.models, model.columns.length < 4294967296)
    (hscope : course.db.scope = some scope) {flushed : Scope}
    (hflush : (Scope.flush course.db.environment).run { scope with supply := course.db.supply } =
      .ok () flushed) : flushed.Intact course.db.environment terms course.deleted := by
  have hopened := h.opened scope hscope
  have hends : (Scope.flush course.db.environment).Ends { scope with supply := course.db.supply }
      (fun _ => ({ scope with supply := course.db.supply } : Scope).Reaches course.db.environment terms)
      (({ scope with supply := course.db.supply } : Scope).Reaches course.db.environment terms) :=
    Scope.flush_reaches hopened.rooted _ Relation.ReflTransGen.refl
  exact hopened.reaches (h.registry_consistent hregistry) (h.counted hcount) (hends.of_ok hflush)

/-- Ending a scope without writing leaves the course intact. -/
theorem closed (h : course.Intact registry terms) {after : Database}
    (hregistry : after.registry = course.db.registry) (hstorage : after.storage = course.db.storage)
    (hscope : after.scope = none) : ({ course with db := after } : Course).Intact registry terms := by
  have henvironment : after.environment = course.db.environment := by
    unfold Database.environment
    rw [hregistry, hstorage]
  refine intact_of_closed hscope (hregistry.trans h.registry_eq) ?_ ?_
  · show ∀ contents, after.storage.read = .ok contents → _
    rw [hstorage]
    exact h.cataloged
  · intro supply
    show ({ supply } : Scope).Intact after.environment terms course.deleted
    rw [henvironment]
    exact h.stored supply

theorem openScope (h : course.Intact registry terms) : (course.step .openScope).Intact registry terms := by
  unfold step
  cases hopen : course.db.openScope with
  | error error => exact h
  | ok opened =>
      obtain ⟨-, -, rfl⟩ := Database.openScope_eq_ok.1 hopen
      refine ⟨h.registry_eq, h.cataloged, h.stored, ?_⟩
      intro scope hscope
      cases hscope
      exact h.stored course.db.supply

/-- What is written keeps the catalog in step with the sequences. -/
theorem cataloged_written (h : course.Intact registry terms) (hregistry : registry.Consistent)
    {flushed : Scope} (hflushed : flushed.Intact course.db.environment terms course.deleted)
    {storage : Storage} (hwritten : flushed.WrittenTo course.db.environment storage) :
    ∀ contents, storage.read = .ok contents → ∀ model ∈ registry.models,
      contents.Cataloged model.tableName := by
  intro contents hread model hmodel
  have hmodel' : model ∈ course.db.environment.registry.models := h.mem_models hmodel
  obtain ⟨_, -, hcompiled⟩ := hregistry.mem_compiled hmodel
  obtain ⟨before, hbefore, hcatalog⟩ := Storage.table?_eq_ok.1
    ((hwritten.catalog model.tableName).symm.trans (Storage.table?_eq_ok.2 ⟨contents, hread, rfl⟩))
  have hold := h.cataloged before hbefore model hmodel
  constructor
  case named =>
    intro schema hschema
    exact hold.named schema (hcatalog.trans hschema)
  case unused =>
    intro hnone
    have habsent : before.catalog.find? model.tableName = none := hcatalog.trans hnone
    have hvalue := hwritten.sequences (sequenceName model.tableName)
    rw [Storage.sequenceValue_eq_ok.2 ⟨contents, hread, rfl⟩,
      Storage.sequenceValue_eq_ok.2 ⟨before, hbefore, hold.unused habsent⟩] at hvalue
    rw [Except.ok.inj hvalue]
    -- A scope draws numbers only where the table is in the catalog.
    cases hfind : flushed.sequences.find? (sequenceName model.tableName) with
    | none => rfl
    | some n =>
        obtain ⟨schema, hschema⟩ :=
          hflushed.drawn.cataloged model hmodel' _ n hcompiled.sequence?_eq hfind
        obtain ⟨_, hbefore', hfound⟩ := Storage.table?_eq_ok.1 hschema
        obtain rfl := Except.ok.inj (hbefore.symm.trans hbefore')
        rw [habsent] at hfound
        cases hfound

theorem commit (h : course.Intact registry terms) (hregistry : registry.Consistent)
    (hcount : ∀ model ∈ registry.models, model.columns.length < 4294967296) :
    (course.step .commit).Intact registry terms := by
  unfold step
  rcases course.db.commit_cases with ⟨error, after, hcommit, hstorage, hscope⟩ |
    ⟨scope, flushed, after, hcommit, hclosed, hscope, hflush, hsame, -, happly⟩
  · have hframe := course.db.commit_frame.1
    rw [hcommit] at hframe
    rw [hcommit]
    exact h.closed hframe hstorage hscope
  · rw [hcommit]
    have hdeletions : course.deletions = flushed.deletions := by
      unfold deletions
      rw [Database.run_of_ok hscope hflush]
      rfl
    have hflushed := h.flushed hregistry hcount hscope hflush
    have hwritten : flushed.WrittenTo course.db.environment after.storage :=
      Scope.writtenTo_of_apply happly
    have henvironment : after.environment = { course.db.environment with storage := after.storage } := by
      unfold Database.environment
      rw [hsame]
    refine intact_of_closed hclosed (hsame.trans h.registry_eq)
      (h.cataloged_written hregistry hflushed hwritten) ?_
    intro supply
    show ({ supply } : Scope).Intact after.environment terms (course.deletions ++ course.deleted)
    rw [henvironment, hdeletions]
    refine hflushed.stored_over hwritten.row ?_ supply
    intro sequence value hvalue
    obtain ⟨_, reached, -, hreached, -, hle⟩ := hwritten.sequenceValue_le hvalue
    exact ⟨reached, hreached, hle⟩

/-! ## Schemas -/

theorem createSchema (h : course.Intact registry terms) (hregistry : registry.Consistent) :
    (course.step .createSchema).Intact registry terms := by
  unfold step
  cases hscope : course.db.scope with
  | some scope => exact h
  | none =>
      show ({ course with db := course.db.createSchema.2 } : Course).Intact registry terms
      rcases course.db.changeStorage_cases fun storage =>
          storage.defineTables course.db.registry.tableSchemas with
        ⟨error, hchanged⟩ | ⟨storage, hchange, hchanged⟩
      · have hfailed : course.db.createSchema = _ := hchanged
        rw [hfailed]
        exact h.closed rfl rfl hscope
      · have hdone : course.db.createSchema = _ := hchanged
        rw [hdone]
        obtain ⟨contents, hread, rfl⟩ := Storage.change_eq_ok.1 hchange
        refine intact_of_closed hscope h.registry_eq ?_ ?_
        · intro after hafter model hmodel
          obtain rfl := Except.ok.inj ((Storage.read_of_contents _ _).symm.trans hafter)
          refine (h.cataloged contents hread model hmodel).foldl_defineTable ?_
          intro schema hschema htable
          rw [h.registry_eq] at hschema
          exact hregistry.sequence_of_tableSchemas hmodel hschema htable
        · intro supply
          refine (h.stored supply).stored_over ?_ ?_ supply
          · intro table number
            show Storage.row? _ table number = course.db.storage.row? table number
            rw [Scope.row?_of_read (Storage.read_of_contents _ _), Scope.row?_of_read hread,
              Contents.row?_foldl_defineTable]
          · intro sequence value hvalue
            obtain ⟨after, hafter, rfl⟩ := Storage.sequenceValue_eq_ok.1 hvalue
            obtain rfl := Except.ok.inj ((Storage.read_of_contents _ _).symm.trans hafter)
            exact ⟨contents.sequenceValue sequence,
              Storage.sequenceValue_eq_ok.2 ⟨contents, hread, rfl⟩,
              (Contents.sequenceValue_foldl_defineTable ..).ge⟩

/-- Dropping the schema leaves tables that start anew. -/
theorem vacant_dropSchema (h : course.Intact registry terms) {after : Database}
    (hdrop : course.db.dropSchema = (.ok (), after)) :
    after.registry = course.db.registry ∧ after.scope = course.db.scope ∧
      ∃ contents, after.storage.read = .ok contents ∧
        ∀ model ∈ registry.models, contents.Vacant model.tableName := by
  rcases course.db.changeStorage_cases fun storage =>
      storage.removeTables (course.db.registry.models.map (·.tableName)) with
    ⟨error, hchanged⟩ | ⟨storage, hchange, hchanged⟩
  · cases hdrop.symm.trans hchanged
  · cases hdrop.symm.trans hchanged
    obtain ⟨contents, hread, rfl⟩ := Storage.change_eq_ok.1 hchange
    refine ⟨rfl, rfl, _, Storage.read_of_contents _ _, ?_⟩
    intro model hmodel
    refine Contents.vacant_foldl_removeTable ?_ (h.cataloged contents hread model hmodel)
    rw [h.registry_eq]
    exact List.mem_map_of_mem hmodel

theorem dropSchema (h : course.Intact registry terms) :
    (course.step .dropSchema).Intact registry terms := by
  unfold step
  cases hscope : course.db.scope with
  | some scope => exact h
  | none =>
      simp only [Option.isSome_none, Bool.false_eq_true, if_false]
      cases hdrop : course.db.dropSchema with
      | mk result after =>
          cases result with
          | error error =>
              rcases course.db.changeStorage_cases fun storage =>
                  storage.removeTables (course.db.registry.models.map (·.tableName)) with
                ⟨_, hchanged⟩ | ⟨_, -, hchanged⟩
              · cases hdrop.symm.trans hchanged
                exact h.closed rfl rfl hscope
              · cases hdrop.symm.trans hchanged
          | ok _ =>
              obtain ⟨hsame, hclosed, contents, hread, hvacant⟩ := h.vacant_dropSchema hdrop
              refine intact_of_closed (hclosed.trans hscope) (hsame.trans h.registry_eq) ?_ ?_
              · intro later hlater model hmodel
                obtain rfl := Except.ok.inj (hread.symm.trans hlater)
                exact (hvacant model hmodel).cataloged
              · intro supply
                refine Scope.Intact.of_no_rows ?_ supply
                intro model hmodel number row hrow
                obtain ⟨later, hlater, hfound⟩ := Storage.row?_eq_ok.1 hrow
                obtain rfl := Except.ok.inj (hread.symm.trans hlater)
                have hmodel' : model ∈ registry.models := (hsame.trans h.registry_eq) ▸ hmodel
                rw [(hvacant model hmodel').empty] at hfound
                cases hfound

/-! ## Courses -/

theorem step (h : course.Intact registry terms) (hregistry : registry.Consistent)
    (hcount : ∀ model ∈ registry.models, model.columns.length < 4294967296) {event : Event}
    (hallows : course.Allows terms event) : (course.step event).Intact registry terms := by
  cases event with
  | openScope => exact h.openScope
  | deed deed =>
      refine h.run hregistry hcount ?_
      intro scope hscope
      exact Deed.perform_reaches (h.registry_consistent hregistry) hscope (h.opened scope hscope).rooted
        hallows
  | commit => exact h.commit hregistry hcount
  | rollback => exact h.closed rfl rfl rfl
  | createSchema => exact h.createSchema hregistry
  | dropSchema => exact h.dropSchema

/-- A database stays intact in any course of events that meets the terms. -/
theorem foldl_step (h : course.Intact registry terms) (hregistry : registry.Consistent)
    (hcount : ∀ model ∈ registry.models, model.columns.length < 4294967296) {events : List Event}
    (hmeets : course.Meets terms events) : (events.foldl Course.step course).Intact registry terms := by
  induction events generalizing course with
  | nil => exact h
  | cons event rest ih => exact ih (h.step hregistry hcount hmeets.1) hmeets.2

/-- What each deed keeps when it is allowed is kept by all of them, one after the other. -/
theorem keeps_deeds (h : course.Intact registry terms) (hregistry : registry.Consistent)
    (hcount : ∀ model ∈ registry.models, model.columns.length < 4294967296)
    (kept : Course → Prop) (allowed : Course → Deed → Prop)
    (hstep : ∀ (course : Course) (deed : Deed), course.Intact registry terms →
      course.Allows terms (.deed deed) → allowed course deed → kept course →
        kept (course.step (.deed deed)))
    {deeds : List Deed} (hmeets : course.Meets terms (deeds.map .deed))
    (hallowed : course.Throughout allowed deeds) (hkept : kept course) :
    kept ((deeds.map .deed).foldl Course.step course) := by
  induction deeds generalizing course with
  | nil => exact hkept
  | cons deed rest ih =>
      exact ih (h.step hregistry hcount hmeets.1) hmeets.2 hallowed.2
        (hstep course deed h hmeets.1 hallowed.1 hkept)

/-- What each event keeps when it is allowed is kept by all of them, one after the other. -/
theorem keeps_events (h : course.Intact registry terms) (hregistry : registry.Consistent)
    (hcount : ∀ model ∈ registry.models, model.columns.length < 4294967296)
    (kept : Course → Prop) (allowed : Event → Prop)
    (hstep : ∀ (course : Course) (event : Event), course.Intact registry terms →
      course.Allows terms event → allowed event → kept course → kept (course.step event))
    {events : List Event} (hmeets : course.Meets terms events) (hallowed : ∀ event ∈ events, allowed event)
    (hkept : kept course) : kept (events.foldl Course.step course) := by
  induction events generalizing course with
  | nil => exact hkept
  | cons event rest ih =>
      have hnext := hstep course event h hmeets.1 (hallowed event List.mem_cons_self) hkept
      exact ih (h.step hregistry hcount hmeets.1) hmeets.2
        (fun other hother => hallowed other (List.mem_cons_of_mem _ hother)) hnext

end Intact

/-! ## Open scopes -/

/-- What scopes have when they are opened and keep in a deed, the open scope still has after an event. -/
theorem scope_step {kept : Scope → Prop} (hopened : ∀ supply, kept { supply }) {event : Event}
    (hdeed : ∀ deed scope, event = .deed deed → course.db.scope = some scope →
      (deed.perform course.db.environment).Ends { scope with supply := course.db.supply }
        (fun _ => kept) kept)
    (hkept : ∀ scope, course.db.scope = some scope → kept scope) :
    ∀ scope, (course.step event).db.scope = some scope → kept scope := by
  have hclosed : ∀ db : Database, db.scope = none → ∀ scope, db.scope = some scope → kept scope := by
    intro db hnone scope hscope
    cases hnone.symm.trans hscope
  cases event with
  | openScope =>
      unfold Course.step
      cases hopen : course.db.openScope with
      | error error => exact hkept
      | ok opened =>
          obtain ⟨-, -, rfl⟩ := Database.openScope_eq_ok.1 hopen
          rintro _ ⟨⟩
          exact hopened _
  | deed deed =>
      cases hscope : course.db.scope with
      | none =>
          refine hclosed _ ?_
          rw [Course.step, Database.run_of_none hscope, hscope]
      | some scope =>
          obtain ⟨after, hrun, hafter⟩ :=
            Database.run_keeps hscope (fun env => deed.perform env) (hdeed deed scope rfl hscope)
          intro last hlast
          simp only [Course.step, hrun] at hlast
          cases hlast
          exact hafter
  | commit =>
      refine hclosed _ ?_
      unfold Course.step
      rcases course.db.commit_cases with ⟨_, after, hcommit, -, hnone⟩ | ⟨_, _, after, hcommit, hnone, -⟩
      · simpa [hcommit] using hnone
      · simpa [hcommit] using hnone
  | rollback => exact hclosed _ rfl
  -- The schema changes only while no scope is open.
  | createSchema =>
      cases hscope : course.db.scope with
      | some scope => simpa [Course.step, hscope] using hkept
      | none =>
          refine hclosed _ ?_
          rcases course.db.changeStorage_cases fun storage =>
              storage.defineTables course.db.registry.tableSchemas with ⟨_, hchanged⟩ | ⟨_, -, hchanged⟩
          · simp [Course.step, hscope, Database.createSchema, hchanged]
          · simp [Course.step, hscope, Database.createSchema, hchanged]
  | dropSchema =>
      cases hscope : course.db.scope with
      | some scope => simpa [Course.step, hscope] using hkept
      | none =>
          refine hclosed _ ?_
          rcases course.db.changeStorage_cases fun storage =>
              storage.removeTables (course.db.registry.models.map (·.tableName)) with
            ⟨_, hchanged⟩ | ⟨_, -, hchanged⟩
          · simp [Course.step, hscope, Database.dropSchema, hchanged]
          · simp [Course.step, hscope, Database.dropSchema, hchanged]

end Course

/-! ## Fresh databases -/

namespace Database

/-- Nothing has happened to a database, but that models were registered, none of them with more columns
than a row can count. -/
structure Fresh (db : Database) : Prop where
  registered : ∃ calls : List Registry.Call, (∀ call ∈ calls, call.Admissible) ∧
    db.registry = calls.foldl Registry.after {}
  counted : ∀ model ∈ db.registry.models, model.columns.length < 4294967296
  closed : db.scope = none
  empty : db.storage.contents.getD {} = {}

theorem Fresh.consistent {db : Database} (h : db.Fresh) : db.registry.Consistent := by
  obtain ⟨calls, hadmissible, hregistry⟩ := h.registered
  rw [hregistry]
  exact Registry.consistent_empty.foldl_after hadmissible

theorem Fresh.intact {db : Database} (h : db.Fresh) {terms : Terms} {events : List Event}
    (hmeets : Course.Meets terms { db } events) :
    (events.foldl Course.step { db }).Intact db.registry terms :=
  (Course.intact_start h.closed h.empty).foldl_step h.consistent h.counted hmeets

/-- A database in memory with the models that calls register. -/
def inMemory (calls : List Registry.Call) : Database where
  registry := calls.foldl Registry.after {}
  storage := .atAddress
    { raw := "memory://", scheme := "memory", credentials := none, location := "" }
  host := { platform := "", architecture := "", timeZone := "" }
  supply := { identifier := fun _ => 0, instant := fun _ => default }

theorem fresh_inMemory {calls : List Registry.Call} (hadmissible : ∀ call ∈ calls, call.Admissible)
    (hcounted : ∀ model ∈ (inMemory calls).registry.models, model.columns.length < 4294967296) :
    (inMemory calls).Fresh :=
  ⟨⟨calls, hadmissible, rfl⟩, hcounted, rfl, rfl⟩

end Database

end RecordStore
