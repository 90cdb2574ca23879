import RecordStore.Proofs.Integrity.FailedFlushes
import RecordStore.Proofs.Integrity.FreshKeys
import RecordStore.Proofs.Scope.KeyValues

/-!
# Primary keys

The primary keys of a model are the columns of the fields that are marked as such.  The first of them is
"id", the key of the model, and every other one was marked by a declaration (`Registry.keyedById`).

After a flush the key that a record reports is what it holds in "id" and what its row holds in all primary
keys.  In a primary key beside "id" a record may hold nothing instead, which a new record does
(`second_key_stays_empty`).  So the three always coincide where "id" is the only primary key
(`keys_coincide_after_flush`).
-/

namespace RecordStore

/-! ## Keys of models -/

/-- The name of a field that is marked as a primary key. -/
def key? (field : String × FieldType) : Option String :=
  match field.2 with
  | .primaryKey => some field.1
  | _ => none

/-- The fields that are marked as primary keys, in order. -/
def Blueprint.keys (blueprint : Blueprint) : List String :=
  blueprint.fields.filterMap key?

/-- The primary keys of a model are the columns of the marked fields.  The first of these is "id", which is
the key of the model. -/
structure Model.KeyedById (model : Model) : Prop where
  columns : model.columns.filter (·.primaryKey) =
    model.blueprint.keys.map (Blueprint.keyColumn model.tableName)
  first : ∃ others, model.blueprint.keys = "id" :: others ∧ "id" ∉ others
  own : model.primaryKey? = some (Blueprint.keyColumn model.tableName "id")

namespace Blueprint

variable {find? : String → Option Model} {model : String} {names : ModelNames}

theorem compileField_key {field : String × FieldType} {part : CompiledField}
    (h : compileField find? model names field.1 field.2 = .ok part) :
    (key? field = some field.1 ∧ part.column = keyColumn names.table field.1) ∨
      (key? field = none ∧ part.column.primaryKey = false) := by
  rcases compileField_cases h with ⟨target, known, htype, -, rfl⟩ | ⟨hplain, -⟩
  · exact Or.inr ⟨by simp [key?, htype], rfl⟩
  · obtain ⟨field, type⟩ := field
    cases type with
    | primaryKey =>
        cases h
        exact Or.inl ⟨rfl, rfl⟩
    | reference target => cases hplain
    | abstractField => cases h
    | column spec | primitive type =>
        cases h
        exact Or.inr ⟨rfl, rfl⟩

theorem filter_primaryKey_of_parts {fields : List (String × FieldType)} {parts : List CompiledField}
    (h : List.Forall₂ (fun (field : String × FieldType) part =>
      compileField find? model names field.1 field.2 = .ok part) fields parts) :
    (parts.map (·.column)).filter (·.primaryKey) =
      (fields.filterMap key?).map (keyColumn names.table) := by
  induction h with
  | nil => rfl
  | cons hfield _ ih =>
      rcases compileField_key hfield with ⟨hkey, hcolumn⟩ | ⟨hkey, hdata⟩
      · simp [hkey, hcolumn, ih, keyColumn]
      · simp [hkey, hdata, ih]

end Blueprint

theorem Model.Compiled.keyedById {find? : String → Option Model} {model : Model}
    (h : model.Compiled find?) : model.KeyedById where
  columns := by
    obtain ⟨-, names, parts, -, hparts, htable, -, hcolumns, -⟩ := h
    rw [hcolumns, htable]
    exact Blueprint.filter_primaryKey_of_parts hparts
  first := by
    obtain ⟨rest, hfields⟩ := h.1.fieldsSound.key_first
    have hnodup := h.1.fieldsSound.names_nodup
    rw [hfields, List.map_cons, List.nodup_cons] at hnodup
    refine ⟨rest.filterMap key?, by simp [Blueprint.keys, hfields, key?], ?_⟩
    -- A field of the same name would be declared twice.
    intro hmem
    obtain ⟨⟨name, type⟩, hfield, hkey⟩ := List.mem_filterMap.1 hmem
    cases type <;> simp [key?] at hkey
    exact hnodup.1 (List.mem_map.2 ⟨_, hfield, hkey⟩)
  own := h.primaryKey?_eq

theorem Registry.Consistent.keyedById {registry : Registry} (h : registry.Consistent) {model : Model}
    (hmodel : model ∈ registry.models) : model.KeyedById := by
  obtain ⟨_, -, hcompiled⟩ := h.mem_compiled hmodel
  exact hcompiled.keyedById

/-- Where "id" is the only marked field, it is the only primary key. -/
theorem Model.KeyedById.name_eq_of_sole {model : Model} (h : model.KeyedById)
    (hsole : model.blueprint.keys = ["id"]) {column : Column} (hcolumn : column ∈ model.columns)
    (hprimary : column.primaryKey = true) : column.name = "id" := by
  have hmem : column ∈ model.columns.filter (·.primaryKey) := List.mem_filter.2 ⟨hcolumn, hprimary⟩
  rw [h.columns, hsole, List.map_singleton, List.mem_singleton] at hmem
  rw [hmem]
  rfl

/-! ## Events that respect keys -/

/-- A change of records of a registry leaves them with their keys. -/
def Edit.RespectsKeys (registry : Registry) (edit : Edit) : Prop :=
  ∀ record changed, record.model ∈ registry.models → record.KeyHeld →
    edit.change record = .ok changed → changed.KeyHeld

/-- An event brings only records that hold their keys, unmarked, and changes records only so that they still
do. -/
def Event.RespectsKeys (registry : Registry) : Event → Prop
  | .deed (.add record) => record.KeyUnmarked ∧ record.KeyHeld
  | .deed (.edit _ edit) => edit.Lawful registry ∧ edit.RespectsKeys registry
  | _ => True

theorem Event.RespectsKeys.lawful {registry : Registry} {event : Event}
    (h : event.RespectsKeys registry) : event.Lawful registry := by
  cases event with
  | deed deed =>
      cases deed with
      | add record => exact h.1
      | edit handle edit => exact h.1
      | act act => trivial
  | _ => trivial

theorem Edit.SparesKeys.respectsKeys {registry : Registry} {edit : Edit} (h : edit.SparesKeys registry)
    (hregistry : registry.Consistent) : edit.RespectsKeys registry := by
  intro record changed hmodel hheld hchange
  obtain ⟨column, hcolumn, hdata, value, marked, rfl⟩ := h record changed hmodel hchange
  obtain ⟨_, -, hcompiled⟩ := hregistry.mem_compiled hmodel
  exact hheld.putBack (fun _ hkey hprimary => hcompiled.name_ne_primaryKey hcolumn hdata hkey hprimary)
    value marked

/-- Whatever is done in a scope with its own records respects keys. -/
theorem Task.respectsKeys {registry : Registry} (hregistry : registry.Consistent) (task : Task) :
    Event.RespectsKeys registry (.deed task.deed) := by
  rcases task.act_or_sparesKeys hregistry with ⟨act, hdeed⟩ | ⟨handle, edit, hdeed, hspares⟩
  · rw [hdeed]
    trivial
  · rw [hdeed]
    exact ⟨hspares.lawful hregistry, hspares.respectsKeys hregistry⟩

/-! ## Records that hold their keys -/

namespace Scope

variable {env : Environment} {terms : Terms} {deleted : List (String × UInt64)} {scope : Scope}

theorem perform_keysHeld (hregistry : env.registry.Consistent)
    (hcount : ∀ model ∈ env.registry.models, model.columns.length < 4294967296)
    (hintact : scope.Intact env terms deleted) (horderly : scope.Orderly) (h : scope.KeysHeld)
    {deed : Deed} (hrespects : Event.RespectsKeys env.registry (.deed deed)) :
    (deed.perform env).Ends scope (fun _ after => after.KeysHeld) (fun after => after.KeysHeld) := by
  have hedit : ∀ (handle : Handle) (edit : Edit), edit.RespectsKeys env.registry →
      (updateRecord handle edit.change).Ends scope (fun _ after => after.KeysHeld)
        (fun after => after.KeysHeld) := by
    intro handle edit hkeeps
    refine updateRecord_keysHeld h handle ?_
    intro entry hentry changed hchanged
    have hknown := hintact.rooted.mem_models hentry
    exact hkeeps _ _ hknown (h handle entry hentry) hchanged
  cases deed with
  | add record => exact ScopeM.ends_discard (add_keysHeld h hrespects.2)
  | edit handle edit => exact hedit handle edit hrespects.2
  | act act =>
      have hlook := lookable_keysHeld hregistry hcount hintact
      -- Looking up consists of flushing and loading, which both leave the keys held.
      have hlooksUp : ∀ act : Act, act.LooksUp → (act.perform env).Ends scope
          (fun _ after => after.KeysHeld) (fun after => after.KeysHeld) := fun act hlooks =>
        (Act.keeps_of_looksUp hlook hregistry hlooks scope ⟨⟨Relation.ReflTransGen.refl, horderly⟩, h⟩).mono
          (fun _ _ hdone => hdone.2) fun _ hfailed => hfailed.2
      change (act.perform env).Ends scope _ _
      cases act with
      | create model => exact ScopeM.ends_discard (create_keysHeld h model)
      | assign handle attr value =>
          exact hedit handle (.set attr value)
            ((Edit.sparesKeys_set hregistry attr value).respectsKeys hregistry)
      | setReference handle field target =>
          exact setReference_keysHeld hregistry hintact.rooted h handle field target
      | delete handle => exact delete_keysHeld h handle
      | _ => exact hlooksUp _ (by trivial)

end Scope

namespace Course

variable {registry : Registry} {terms : Terms} {course : Course}

/-- The records of the open scope, if there is one, hold their keys. -/
def KeysHeld (course : Course) : Prop :=
  ∀ scope, course.db.scope = some scope → scope.KeysHeld

theorem KeysHeld.step (h : course.KeysHeld) (horderly : course.Orderly)
    (hintact : course.Intact registry terms) (hregistry : registry.Consistent)
    (hcount : ∀ model ∈ registry.models, model.columns.length < 4294967296) {event : Event}
    (hrespects : event.RespectsKeys registry) : (course.step event).KeysHeld := by
  have hsame : course.db.registry = registry := hintact.registry_eq
  subst hsame
  refine scope_step Scope.keysHeld_empty ?_ h
  rintro deed scope rfl hscope
  exact Scope.perform_keysHeld hregistry hcount (hintact.opened scope hscope)
    ((horderly scope hscope).of_same rfl rfl) ((h scope hscope).of_same rfl) hrespects

end Course

/-- The records of a fresh database hold their keys after any course of events that respect keys. -/
theorem Database.Fresh.keysHeld {db : Database} (h : db.Fresh) {terms : Terms} {events : List Event}
    (hmeets : Course.Meets terms { db } events)
    (hrespects : ∀ event ∈ events, event.RespectsKeys db.registry) :
    (events.foldl Course.step { db }).Orderly ∧ (events.foldl Course.step { db }).KeysHeld := by
  have hstart : Course.KeysHeld { db } := by
    intro scope hscope
    cases h.closed.symm.trans hscope
  refine (Course.intact_start h.closed h.empty).keeps_events h.consistent h.counted
    (fun course => course.Orderly ∧ course.KeysHeld) (Event.RespectsKeys db.registry) ?_ hmeets hrespects
    ⟨Course.orderly_of_closed h.closed, hstart⟩
  rintro course event hintact hallows hkept ⟨horderly, hheld⟩
  exact ⟨horderly.step hintact h.consistent hallows hkept.lawful,
    hheld.step horderly hintact h.consistent h.counted hkept⟩

/-! ## Keys after a flush -/

namespace Scope

variable {env : Environment} {terms : Terms} {deleted : List (String × UInt64)} {scope : Scope}

/-- A record reports a key, holds it in "id" and nothing else in any primary key, and any row of the key
holds it in all primary keys. -/
structure ShowsKey (env : Environment) (scope : Scope) (record : Record) (id : Int64) : Prop where
  reported : record.id = some id
  held : record.get "id" = .ok (.integer id)
  others : ∀ column ∈ record.model.columns, column.primaryKey = true → column.name ≠ "id" →
    record.get column.name = .ok .null ∨ record.get column.name = .ok (.integer id)
  stored : ∀ row, scope.visibleRow env record.model.tableName id.toUInt64 = .ok (some row) →
    ∃ columns, row.Holds columns ∧ ∀ column ∈ record.model.columns,
      column.primaryKey = true →
        column.load (storedColumn columns column.name) = .ok (.integer id)

theorem KeysHeld.showsKey (hregistry : env.registry.Consistent)
    (hcount : ∀ model ∈ env.registry.models, model.columns.length < 4294967296)
    (hintact : scope.Intact env terms deleted) (h : scope.KeysHeld) {handle : Handle} {entry : Entry}
    (hentry : scope.entries[handle]? = some entry) {id : Int64} (hid : entry.record.id = some id) :
    scope.ShowsKey env entry.record id := by
  have hmodel := hintact.rooted.mem_models hentry
  have hheld := h handle entry hentry
  constructor
  case reported => exact hid
  case held =>
    have hown := (hregistry.keyedById hmodel).own
    exact Record.get_eq_ok.2 (hheld.own id _ hid hown)
  case others =>
    intro column hcolumn hprimary _
    rcases hheld.columns column hcolumn hprimary with hnull | ⟨key, hkey, hvalue⟩
    · exact Or.inl (Record.get_eq_ok.2 hnull)
    · obtain rfl := Option.some.inj (hid.symm.trans hkey)
      exact Or.inr (Record.get_eq_ok.2 hvalue)
  case stored =>
    intro row hrow
    obtain ⟨columns, hwrote⟩ := hintact.rows.written _ hmodel _ row hrow
    refine ⟨columns, hwrote.holds (hcount _ hmodel), ?_⟩
    intro column hcolumn hprimary
    have hstored := hintact.holdsKeys _ hmodel _ columns ⟨row, hrow, hwrote⟩ column hcolumn hprimary
    rw [Int64.toInt64_toUInt64] at hstored
    rw [hstored]
    rfl

/-- A stored record shows its key, and nothing beside it where "id" is the only primary key. -/
theorem KeysHeld.shows_of_persistent (hregistry : env.registry.Consistent)
    (hcount : ∀ model ∈ env.registry.models, model.columns.length < 4294967296)
    (hintact : scope.Intact env terms deleted) (h : scope.KeysHeld) {handle : Handle} {entry : Entry}
    (hentry : scope.entries[handle]? = some entry) (hpersistent : entry.state = .persistent) :
    ∃ id, scope.ShowsKey env entry.record id ∧
      (terms.grounded → ∃ row,
        scope.visibleRow env entry.record.model.tableName id.toUInt64 = .ok (some row)) ∧
      (entry.record.model.blueprint.keys = ["id"] → ∀ column ∈ entry.record.model.columns,
        column.primaryKey = true → column.name = "id" ∧
          entry.record.get column.name = .ok (.integer id)) := by
  have hstanding := standing_of_entry hentry
  obtain ⟨id, hid⟩ : ∃ id, entry.record.id = some id :=
    Option.ne_none_iff_exists'.1 (hintact.rooted.stored handle _ hstanding hpersistent)
  have hshows := h.showsKey hregistry hcount hintact hentry hid
  refine ⟨id, hshows, ?_, ?_⟩
  · intro hgrounded
    obtain ⟨key, row, hkey, hrow⟩ :=
      ((hintact.keyed hgrounded).records handle _ hstanding).present (Or.inl hpersistent)
    obtain rfl := Option.some.inj (hid.symm.trans hkey)
    exact ⟨row, hrow⟩
  · intro hsole column hcolumn hprimary
    have hmodel := hintact.rooted.registered handle _ hstanding
    have hname := (hregistry.keyedById hmodel).name_eq_of_sole hsole hcolumn hprimary
    exact ⟨hname, hname ▸ hshows.held⟩

end Scope

/-- Keys coincide after a flush.  Take a registry after any calls.  The primary keys of each of its models are
the columns of the fields that are marked as such, the first of which is "id".  Take a database with this
registry to which nothing has happened, and any course of events in which the records that come from
outside hold their keys.  After a flush that succeeds, each live record reports a key, which it holds in
"id" and which its row holds in all primary keys; and where records that come from outside have their rows,
the row is there.  In a primary key beside "id" the record holds the key or nothing.  So where "id" is the
only marked field, it is the only primary key, and what the record reports, what it holds there and what
its row holds there coincide. -/
theorem keys_coincide_after_flush {calls : List Registry.Call}
    (hadmissible : ∀ call ∈ calls, call.Admissible) :
    let registry := calls.foldl Registry.after {}
    (∀ model ∈ registry.models, model.KeyedById) ∧
    ∀ (db : Database) (terms : Terms) (events : List Event), db.Fresh → db.registry = registry →
      Course.Meets terms { db } events → (∀ event ∈ events, event.RespectsKeys registry) →
        ∀ after scope, (events.foldl Course.step { db }).db.run Scope.flush = (.ok (), after) →
          after.scope = some scope → ∀ (handle : Handle) (entry : Entry),
            scope.entries[handle]? = some entry → entry.state.isLive = true →
              ∃ id, scope.ShowsKey after.environment entry.record id ∧
                (terms.grounded → ∃ row, scope.visibleRow after.environment
                  entry.record.model.tableName id.toUInt64 = .ok (some row)) ∧
                (entry.record.model.blueprint.keys = ["id"] → ∀ column ∈ entry.record.model.columns,
                  column.primaryKey = true → column.name = "id" ∧
                    entry.record.get column.name = .ok (.integer id)) := by
  intro registry
  have hregistry : registry.Consistent := Registry.consistent_empty.foldl_after hadmissible
  refine ⟨fun model hmodel => hregistry.keyedById hmodel, ?_⟩
  intro db terms events hfresh hsame hmeets hrespects after scope hflush hscope handle entry hentry hlive
  have hintact : (events.foldl Course.step { db }).Intact db.registry terms := hfresh.intact hmeets
  obtain ⟨horderly, hheld⟩ := hfresh.keysHeld hmeets (hsame ▸ hrespects)
  generalize events.foldl Course.step { db } = course at *
  obtain ⟨started, flushed, hstarted, hrun, rfl⟩ := Database.run_eq_ok.1 hflush
  cases hscope
  have hconsistent := hintact.registry_consistent hfresh.consistent
  have hafter := hintact.flushed hfresh.consistent hfresh.counted hstarted hrun
  have hkept : scope.KeysHeld :=
    (Scope.flush_keysHeld hconsistent (hintact.opened started hstarted).rooted
      ((horderly started hstarted).of_same rfl rfl) ((hheld started hstarted).of_same rfl)).of_ok hrun
  -- A flush leaves stored records and removed ones, of which only the former are live.
  have hpersistent : entry.state = .persistent := by
    rcases (Scope.flush_settles _ _).of_ok hrun handle entry hentry with hstored | hremoved
    · exact hstored
    · simp [hremoved, Lifecycle.isLive] at hlive
  exact hkept.shows_of_persistent hconsistent (hintact.counted hfresh.counted) hafter hentry hpersistent

/-! ## Notes that have a place -/

/-- Notes with a place, which is marked as a primary key, and tags, which have nothing but their key. -/
def placedNotes : List Registry.Call := [
  .register (.declaration {
    name := "Note", tableName := some "notes", relatedName := some "notes"
    overrides := [("place", .named "primary-key-marker")] }),
  .register (.declaration { name := "Tag", tableName := some "tags", relatedName := some "tags" })]

theorem placedNotes_admissible : ∀ call ∈ placedNotes, call.Admissible := by
  simp [placedNotes, Registry.Call.Admissible, Candidate.Admissible, Blueprint.Composed.base]

theorem placedNotes_fresh : (Database.inMemory placedNotes).Fresh :=
  Database.fresh_inMemory placedNotes_admissible (by decide +kernel)

/-- A note is kept, and found while another one and a tag are made. -/
def noteIsFollowed : List Event := [
  .createSchema, .openScope, .deed (.act (.create "Note")), .commit,
  .openScope, .deed (.act (.find "Note" 1)), .deed (.act (.create "Note")), .deed (.act (.create "Tag"))]

/-- The note that is found and the records that are made show their keys.  Those of the tag coincide, since it
has no other. -/
theorem keys_coincide_after_flush_of_notes :
    let registry := placedNotes.foldl Registry.after {}
    let course := noteIsFollowed.foldl Course.step { db := .inMemory placedNotes }
    (∀ model ∈ registry.models, model.KeyedById) ∧
    ∃ after scope, course.db.run Scope.flush = (.ok (), after) ∧ after.scope = some scope ∧
      scope.entries.length = 3 ∧
      (∀ (handle : Handle) (entry : Entry), scope.entries[handle]? = some entry →
        ∃ id, scope.ShowsKey after.environment entry.record id ∧ ∃ row,
          scope.visibleRow after.environment entry.record.model.tableName id.toUInt64 =
            .ok (some row)) ∧
      ∃ tag id, scope.entries[2]? = some tag ∧ tag.record.modelName = "Tag" ∧ tag.record.id = some id ∧
        (tag.record.model.columns.filter (·.primaryKey)).length = 1 ∧
        ∀ column ∈ tag.record.model.columns, column.primaryKey = true →
          column.name = "id" ∧ tag.record.get column.name = .ok (.integer id) := by
  have hmeets : Course.Meets { grounded := True, undeleted := True }
      { db := .inMemory placedNotes } noteIsFollowed :=
    Course.meets_of_brings_nothing (by simp [noteIsFollowed]) (by simp [noteIsFollowed]) _
  have hrespects : ∀ event ∈ noteIsFollowed,
      event.RespectsKeys (Database.inMemory placedNotes).registry := by
    simp [noteIsFollowed, Event.RespectsKeys]
  obtain ⟨hflush, scope, hscope, hlength, hlive, tag, htag, hname, hkeys, hsingle⟩ :
      let run := (noteIsFollowed.foldl Course.step { db := .inMemory placedNotes }).db.run Scope.flush
      run.1 = .ok () ∧ ∃ scope ∈ run.2.scope, scope.entries.length = 3 ∧
        (∀ entry ∈ scope.entries, entry.state.isLive = true) ∧
        ∃ tag ∈ scope.entries[2]?, tag.record.modelName = "Tag" ∧
          tag.record.model.blueprint.keys = ["id"] ∧
          (tag.record.model.columns.filter (·.primaryKey)).length = 1 := by
    decide +kernel
  obtain ⟨hkeyed, hmain⟩ := keys_coincide_after_flush placedNotes_admissible
  have hshown := hmain _ _ _ placedNotes_fresh rfl hmeets hrespects
  refine ⟨hkeyed, ?_⟩
  -- From here on the course is not computed any more.
  generalize noteIsFollowed.foldl Course.step { db := .inMemory placedNotes } = course at *
  have hdone : course.db.run Scope.flush = (.ok (), (course.db.run Scope.flush).2) := Prod.ext hflush rfl
  have hevery := fun (handle : Handle) (entry : Entry) (hentry : scope.entries[handle]? = some entry) =>
    hshown _ _ hdone hscope handle entry hentry (hlive entry (List.mem_of_getElem? hentry))
  refine ⟨_, scope, hdone, hscope, hlength, ?_, ?_⟩
  · intro handle entry hentry
    obtain ⟨id, hshows, hrow, -⟩ := hevery handle entry hentry
    exact ⟨id, hshows, hrow trivial⟩
  · obtain ⟨id, hshows, -, hcoincide⟩ := hevery 2 tag htag
    exact ⟨tag, id, htag, hname, hshows.reported, hsingle, hcoincide hkeys⟩

/-- A note has two primary keys.  When it is made and flushed it reports the key one and holds it in "id", and
its row holds it in both; but in its place the note holds nothing. -/
theorem second_key_stays_empty :
    let course := (noteIsFollowed.take 3).foldl Course.step { db := .inMemory placedNotes }
    let flushed := course.db.run Scope.flush
    flushed.1 = .ok () ∧ ∃ scope ∈ flushed.2.scope, ∃ entry ∈ scope.entries[0]?,
      entry.state.isLive = true ∧
      (entry.record.model.columns.filter (·.primaryKey)).map (·.name) = ["id", "place"] ∧
      entry.record.id = some 1 ∧
      (∃ value ∈ (entry.record.get "id").toOption, value.asInteger? = some 1) ∧
      (∃ value ∈ (entry.record.get "place").toOption, value.isNull = true) ∧
      ∃ row ∈ (scope.visibleRow flushed.2.environment "notes" 1).toOption.join,
      ∃ columns ∈ (decodeRow row.data).toOption,
        (storedColumn columns "id").asInteger? = some 1 ∧
        (storedColumn columns "place").asInteger? = some 1 := by
  decide +kernel

end RecordStore
