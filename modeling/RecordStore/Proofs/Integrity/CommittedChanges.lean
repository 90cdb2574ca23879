import RecordStore.Proofs.Integrity.ShownRows

/-!
# Changes of containers are committed

Whatever is done to the containers of a stored record, a commit that succeeds leaves what the record holds
for the scopes that come after, item by item (`changed_containers_are_committed`), unless a time of day in
the row cannot be read.  The numbers of rows must have been given: a row that came back with a number that is
still to be given is lost when a new record gets it (`number_given_again_loses_change`).
-/

namespace RecordStore

/-- Containers are not converted. -/
theorem Column.Mirrors.alike_of_container {column : Column} {value loaded : Value}
    (h : column.Mirrors value loaded) {kind : ContainerKind} (hkind : column.kind = .container kind) :
    loaded.AlikeItems value := by
  rcases h with halike | hwidens
  · exact halike
  · rw [hkind] at hwidens
    cases hwidens

/-! ## Records in new scopes -/

/-- A scope that is opened anew finds a record by its key. -/
def Database.Finds (db : Database) (name : String) (id : Int64) (record : Record) : Prop :=
  ∃ opened handle last scope entry, db.openScope = .ok opened ∧
    opened.run (fun env => Scope.find env name id) = (.ok handle, last) ∧ last.scope = some scope ∧
    scope.entries[handle]? = some entry ∧ entry.record = record

namespace Scope

variable {env : Environment} {model : Model} {id : Int64} {row : StoredRow}
  {columns : List (String × Value)}

/-- In a new scope the record of a stored row is made from the row, if it can be. -/
theorem find_stored (hregistry : env.registry.Consistent) (hmodel : model ∈ env.registry.models)
    (hcount : model.columns.length < 4294967296) (hid : 0 ≤ id.toInt)
    (hrow : env.storage.row? model.tableName id.toUInt64 = .ok (some row))
    (hwrote : model.Wrote row columns) (supply : Supply) :
    (find env model.name id).Ends { supply }
      (fun handle after => model.CanLoad row ∧ ∃ entry, after.entries[handle]? = some entry ∧
        ∀ column ∈ model.columns, column.primaryKey = false → ∃ value,
          entry.record.values.find? column.name = some value ∧ row.read column = .ok value)
      (fun _ => ¬model.CanLoad row) := by
  obtain ⟨_, -, hcompiled⟩ := hregistry.mem_compiled hmodel
  have hholds := hwrote.holds hcount
  unfold find
  refine ScopeM.ends_lift_bind_of_ok (hregistry.model_eq_ok.2 ⟨hmodel, rfl⟩) ?_
  refine ScopeM.ends_get_bind ?_
  have hnone : ({ supply } : Scope).identity.find? (model.name, id) = none := rfl
  have hpositive : ¬id.toInt < 0 := by omega
  rw [hnone]
  simp only [if_neg hpositive]
  have hvisible : ({ supply } : Scope).visibleRow env model.tableName id.toUInt64 = .ok (some row) := hrow
  refine ScopeM.ends_bind ((lookUpRow_visible hvisible).mono (fun _ _ h => h) fun _ h => h.elim) ?_
  rintro _ asked ⟨-, rfl⟩
  refine materialize_of_fits hcompiled hholds hwrote.fits id ?_ fun hfails => hfails
  intro hcan loaded hall
  refine ⟨hcan, _, getElem?_appendAs.2 (Or.inr ⟨rfl, rfl⟩), ?_⟩
  intro column hcolumn hdata
  obtain ⟨value, hvalue, hload⟩ := Record.find?_loaded hcompiled hwrote.fits hall
    (env.registry.collectionNames model.name) id hcolumn hdata
  have hreadable := ((Model.canLoad_iff hcompiled hholds hwrote.fits).1 hcan column hcolumn).1
  exact ⟨value, hvalue, hholds.read_eq_ok.2 ⟨hreadable, hload⟩⟩

end Scope

/-- A stored row is found by its key if it can be loaded, and what is found holds what is read from it. -/
theorem Database.finds_row {db : Database} {model : Model} {id : Int64} {row : StoredRow}
    {columns : List (String × Value)} (hregistry : db.registry.Consistent) (hclosed : db.scope = none)
    (hmodel : model ∈ db.registry.models) (hcount : model.columns.length < 4294967296)
    (hid : 0 ≤ id.toInt) (hrow : db.storage.row? model.tableName id.toUInt64 = .ok (some row))
    (hwrote : model.Wrote row columns) :
    ((∃ record, db.Finds model.name id record) ↔ model.CanLoad row) ∧
      ∀ record, db.Finds model.name id record → ∀ column ∈ model.columns, column.primaryKey = false →
        ∃ value, record.values.find? column.name = some value ∧ row.read column = .ok value := by
  have hends : (Scope.find db.environment model.name id).Ends { supply := db.supply } _ _ :=
    Scope.find_stored hregistry hmodel hcount hid hrow hwrote db.supply
  let opened : Database := { db with scope := some { supply := db.supply } }
  have hopen : db.openScope = .ok opened := openScope_of_row hclosed hrow
  have hscope : opened.scope = some { supply := db.supply } := rfl
  rcases opened.run_cases hscope (Scope.find · model.name id) hends with
    ⟨handle, after, hdone, hcan, entry, hentry, hvalues⟩ | ⟨error, after, hfailed, hcannot⟩
  · refine ⟨⟨fun _ => hcan, fun _ =>
      ⟨entry.record, opened, handle, _, after, entry, hopen, hdone, rfl, hentry, rfl⟩⟩, ?_⟩
    -- Opening and finding have one result, so every record that is found is this one.
    rintro record ⟨_, _, _, _, found, hopen', hfound, hscope', hfound', rfl⟩
    cases hopen.symm.trans hopen'
    rw [hdone] at hfound
    cases hfound
    cases hscope'
    cases hentry.symm.trans hfound'
    exact hvalues
  · have hnone : ∀ record, ¬db.Finds model.name id record := by
      rintro record ⟨_, _, _, _, _, hopen', hfound, -⟩
      cases hopen.symm.trans hopen'
      rw [hfailed] at hfound
      cases hfound
    exact ⟨iff_of_false (fun ⟨record, hfound⟩ => hnone record hfound) hcannot,
      fun record hfound => absurd hfound (hnone record)⟩

/-! ## Commits -/

/-- When a flushed scope is written, a new scope finds each of its live records whose row can be loaded, with
what the row presents; the record mirrors this. -/
theorem Scope.Aligned.finds_written {env : Environment} {deleted : List (String × UInt64)} {scope : Scope}
    (hregistry : env.registry.Consistent)
    (hcount : ∀ model ∈ env.registry.models, model.columns.length < 4294967296)
    (h : scope.Aligned env deleted) (hsettled : scope.Settled) {after : Database}
    (hsame : after.registry = env.registry) (hclosed : after.scope = none)
    (hwritten : scope.WrittenTo env after.storage) {handle : Handle} {entry : Entry}
    (hentry : scope.entries[handle]? = some entry) (hlive : entry.state.isLive = true) :
    ∃ (id : Int64) (content : Column → Value), entry.record.id = some id ∧
      (∀ column ∈ entry.record.model.columns, column.primaryKey = false → ∃ value,
        entry.record.get column.name = .ok value ∧ column.Mirrors value (content column)) ∧
      ((∃ record, after.Finds entry.record.modelName id record) ↔
        ∀ column, entry.record.model.DataColumn column → (content column).Readable) ∧
      ∀ record, after.Finds entry.record.modelName id record →
        ∀ column ∈ entry.record.model.columns, column.primaryKey = false →
          record.get column.name = .ok (content column) := by
  have hstanding := standing_of_entry hentry
  have hmodel : entry.record.model ∈ env.registry.models :=
    h.anchored.rooted.registered handle _ hstanding
  obtain ⟨id, row, content, hid, hrow, hpresents, hshown⟩ :=
    h.showsRow hregistry hcount hsettled hentry hlive
  obtain ⟨columns, hwrote⟩ := h.anchored.rows.written _ hmodel _ row hrow
  have hpositive := ((h.anchored.keyed.records handle _ hstanding).identified id hid).1
  obtain ⟨hfinds, hreads⟩ := Database.finds_row (hsame ▸ hregistry) hclosed (hsame ▸ hmodel)
    (hcount _ hmodel) hpositive.le ((hwritten.row _ _).trans hrow) hwrote
  refine ⟨id, content, hid, ?_, hfinds.trans hpresents.canLoad, ?_⟩
  · intro column hcolumn hdata
    obtain ⟨value, hvalue, hmirrors⟩ := hshown column hcolumn
    refine ⟨value, hvalue, hmirrors ?_⟩
    intro hprimary
    rw [hdata] at hprimary
    cases hprimary
  · intro record hfound column hcolumn hdata
    obtain ⟨value, hvalue, hread⟩ := hreads record hfound column hcolumn hdata
    obtain ⟨-, rfl⟩ := (hpresents.read column hcolumn value).1 hread
    exact Record.get_eq_ok.2 hvalue

/-- Changes of containers are committed.  Take a database to which nothing has happened and any course of
events after which no scope is open and the rows have numbers that were given.  Open a scope, and do any
tasks in it; containers may be changed in place in any way, and changes may fail.  A commit that succeeds
leaves content for each record that was stored: in each column of containers one whose items are those that
the record held, each the same or equal to the one at its place, and in all columns of data what mirrors the
record.  A new scope finds the record exactly if all times of day in the content can be read, and what it
finds holds the content. -/
theorem changed_containers_are_committed {db : Database} (hfresh : db.Fresh)
    (hdefaults : db.registry.OrderedDefaults) {terms : Terms} {events : List Event}
    (hmeets : Course.Meets terms { db } events)
    (hclosed : (events.foldl Course.step { db }).db.scope = none)
    (hnumbered : (events.foldl Course.step { db }).db.Numbered) {tasks : List Task}
    (hordered : ∀ task ∈ tasks, task.Ordered) {scope : Scope}
    (hscope : (((events.foldl Course.step { db }).step .openScope).work tasks).db.scope = some scope)
    {after : Database}
    (hcommit : (((events.foldl Course.step { db }).step .openScope).work tasks).db.commit =
      (.ok (), after)) {handle : Handle} {entry : Entry}
    (hentry : scope.entries[handle]? = some entry) (hstored : entry.state = .persistent) :
    ∃ (id : Int64) (content : Column → Value), entry.record.id = some id ∧
      (∀ column ∈ entry.record.model.columns, ∀ kind, column.kind = .container kind → ∃ held,
        entry.record.get column.name = .ok held ∧ (content column).AlikeItems held) ∧
      (∀ column, entry.record.model.DataColumn column → ∃ held,
        entry.record.get column.name = .ok held ∧ column.Mirrors held (content column)) ∧
      ((∃ record, after.Finds entry.record.modelName id record) ↔
        ∀ column, entry.record.model.DataColumn column → (content column).Readable) ∧
      ∀ record, after.Finds entry.record.modelName id record →
        ∀ column ∈ entry.record.model.columns, column.primaryKey = false →
          record.get column.name = .ok (content column) := by
  obtain ⟨haligned, hsame⟩ := hfresh.aligned_work hdefaults hmeets hclosed hnumbered hordered
  generalize ((events.foldl Course.step { db }).step .openScope).work tasks = course at *
  rcases course.db.commit_cases with ⟨_, _, hfailed, -⟩ |
    ⟨started, flushed, written, hdone, hended, hstarted, hflush, hregistry, -, happly⟩
  · rw [hcommit] at hfailed
    cases hfailed
  rw [hcommit] at hdone
  cases hdone
  obtain rfl := Option.some.inj (hscope.symm.trans hstarted)
  obtain ⟨hflushed, hsettled, hkeeps⟩ := haligned.flushed hfresh.consistent hfresh.counted hdefaults
    hsame hscope hflush
  -- The record is still there after the flush, with the same containers.
  obtain ⟨kept, hkept, hmodel, hid, hvalues⟩ := hkeeps handle entry hentry hstored
  have hcounted : ∀ model ∈ course.db.registry.models, model.columns.length < 4294967296 :=
    hsame ▸ hfresh.counted
  have hconsistent : course.db.registry.Consistent := hsame ▸ hfresh.consistent
  obtain ⟨id, content, hkey, hmirrored, hfinds, hholds⟩ := hflushed.finds_written hconsistent hcounted
    hsettled hregistry hended (Scope.writtenTo_of_apply happly) hkept (by rw [hstored]; rfl)
  have hname : kept.modelName = entry.record.modelName := congrArg Model.name hmodel
  have hregistered : kept.model ∈ course.db.registry.models :=
    hflushed.anchored.rooted.registered handle _ (Scope.standing_of_entry hkept)
  obtain ⟨_, -, hcompiled⟩ := hconsistent.mem_compiled hregistered
  have hdata : ∀ column, entry.record.model.DataColumn column → ∃ held,
      entry.record.get column.name = .ok held ∧ column.Mirrors held (content column) := by
    intro column hcolumn
    obtain ⟨held, hheld, hmirrors⟩ := hmirrored column (hmodel ▸ hcolumn.mem) hcolumn.not_key
    have hsame := hvalues column hcolumn.mem hcolumn.not_reference
    exact ⟨held, Record.get_eq_ok.2 (hsame.symm.trans (Record.get_eq_ok.1 hheld)), hmirrors⟩
  rw [hmodel, hname] at hfinds hholds
  refine ⟨id, content, hid.symm.trans hkey, ?_, hdata, hfinds, hholds⟩
  intro column hcolumn kind hkind
  obtain ⟨hown, hforeign⟩ := hcompiled.of_container (hmodel ▸ hcolumn) hkind
  obtain ⟨held, hheld, hmirrors⟩ := hdata column ⟨hcolumn, hown, hforeign⟩
  exact ⟨held, hheld, hmirrors.alike_of_container hkind⟩

/-! ## Notes that are marked -/

/-- The mark that the note gets is committed. -/
theorem changed_containers_are_committed_of_note :
    let course := ((noteIsKept.foldl Course.step { db := gradedNotes }).step .openScope).work noteIsGraded
    ∃ after record held loaded, course.db.commit = (.ok (), after) ∧
      after.Finds "Note" 1 record ∧ held.asList?.map List.length = some 1 ∧
      record.get "marks" = .ok loaded ∧ loaded.AlikeItems held := by
  obtain ⟨hcommit, ⟨scope, hscope, entry, hentry, hstate, hid, hname,
      ⟨column, hcolumn, hmarks, hkind, hdata⟩, held, hheld, hlength⟩,
      opened, hopened, handle, hhandle, last, hlast, found, hfound, -⟩ :
      let course :=
        ((noteIsKept.foldl Course.step { db := gradedNotes }).step .openScope).work noteIsGraded
      course.db.commit.1 = .ok () ∧
      (∃ scope ∈ course.db.scope, ∃ entry ∈ scope.entries[0]?,
        entry.state = .persistent ∧ entry.record.id = some 1 ∧ entry.record.modelName = "Note" ∧
        (∃ column ∈ entry.record.model.columns, column.name = "marks" ∧
          column.kind = .container .list ∧ column.primaryKey = false) ∧
        ∃ held ∈ (entry.record.get "marks").toOption, held.asList?.map List.length = some 1) ∧
      ∃ opened ∈ course.db.commit.2.openScope.toOption,
        ∃ handle ∈ (opened.run fun env => Scope.find env "Note" 1).1.toOption,
        ∃ last ∈ (opened.run fun env => Scope.find env "Note" 1).2.scope,
        ∃ found ∈ last.entries[handle]?, found.record.id = some 1 := by
    decide +kernel
  have hmain := @changed_containers_are_committed _ gradedNotes_fresh gradedNotes_orderedDefaults _ _
    noteIsKept_meets noteIsKept_closed noteIsKept_numbered _ noteIsGraded_ordered
  -- From here on the course is not computed any more.
  generalize ((noteIsKept.foldl Course.step { db := gradedNotes }).step .openScope).work noteIsGraded =
    course at *
  have hdone : course.db.commit = (.ok (), course.db.commit.2) := Prod.ext hcommit rfl
  have hfinds : course.db.commit.2.Finds "Note" 1 found.record := by
    refine ⟨opened, handle, _, last, found, toOption_eq_some.1 hopened, ?_, hlast, hfound, rfl⟩
    exact Prod.ext (toOption_eq_some.1 hhandle) rfl
  obtain ⟨id, content, hkey, hcontent, -, -, hholds⟩ := hmain hscope hdone hentry hstate
  obtain ⟨other, hother, halike⟩ := hcontent column hcolumn .list hkind
  rw [hmarks, toOption_eq_some.1 hheld] at hother
  cases hother
  obtain rfl := Option.some.inj (hid.symm.trans hkey)
  have hloaded := hholds found.record (hname ▸ hfinds) column hcolumn hdata
  rw [hmarks] at hloaded
  exact ⟨_, found.record, held, content column, hdone, hfinds, hlength, hloaded, halike⟩

/-- A note is made in a scope that is left. -/
def noteIsTakenBack : List Event := [
  .createSchema, .openScope, .deed (.act (.create "Note")), .deed (.act .flush)]

/-- A copy of the note is committed after all, with its number, which is still to be given.  It is found
and gets a mark, in a scope in which another note is made. -/
def numberIsTaken (copy : Record) : List Event := [
  .rollback, .openScope, .deed (.add copy), .deed (.act (.assign 0 "marks" (.list [.integer 1]))),
  .commit, .openScope, .deed (.act (.find "Note" 1)), .deed (.act (.create "Note")),
  .deed (Task.list 0 "marks" [.push (.integer 2)]).deed]

/-- The other note gets the number of the note that was found, and takes its row: after a commit that
succeeds no mark is left. -/
theorem number_given_again_loses_change :
    let before := noteIsTakenBack.foldl Course.step { db := gradedNotes }
    ∃ copy ∈ before.record? 0,
      let course := (numberIsTaken copy).foldl Course.step before
      ∃ after scope entry record content loaded, course.db.commit = (.ok (), after) ∧
        course.db.scope = some scope ∧ scope.entries[0]? = some entry ∧ entry.state = .persistent ∧
        entry.record.id = some 1 ∧ entry.record.get "marks" = .ok content ∧
        after.Finds "Note" 1 record ∧ record.get "marks" = .ok loaded ∧
        ¬loaded.AlikeItems content := by
  obtain ⟨copy, hcopy, hcommit, ⟨scope, hscope, entry, hentry, hstate, hid, content, hcontent, hlist⟩,
      opened, hopened, handle, hhandle, last, hlast, found, hfound, loaded, hloaded, hnull⟩ :
      let before := noteIsTakenBack.foldl Course.step { db := gradedNotes }
      ∃ copy ∈ before.record? 0,
        let course := (numberIsTaken copy).foldl Course.step before
        course.db.commit.1 = .ok () ∧
        (∃ scope ∈ course.db.scope, ∃ entry ∈ scope.entries[0]?, entry.state = .persistent ∧
          entry.record.id = some 1 ∧ ∃ content ∈ (entry.record.get "marks").toOption,
            content.typeName = "list") ∧
        ∃ opened ∈ course.db.commit.2.openScope.toOption,
          ∃ handle ∈ (opened.run fun env => Scope.find env "Note" 1).1.toOption,
          ∃ last ∈ (opened.run fun env => Scope.find env "Note" 1).2.scope,
          ∃ found ∈ last.entries[handle]?, ∃ loaded ∈ (found.record.get "marks").toOption,
            loaded.typeName = "null" := by
    decide +kernel
  refine ⟨copy, hcopy, ?_⟩
  -- From here on the course is not computed any more.
  generalize (numberIsTaken copy).foldl Course.step
    (noteIsTakenBack.foldl Course.step { db := gradedNotes }) = course at *
  have hdone : course.db.commit = (.ok (), course.db.commit.2) := Prod.ext hcommit rfl
  have hfinds : course.db.commit.2.Finds "Note" 1 found.record := by
    refine ⟨opened, handle, _, last, found, toOption_eq_some.1 hopened, ?_, hlast, hfound, rfl⟩
    exact Prod.ext (toOption_eq_some.1 hhandle) rfl
  refine ⟨_, scope, entry, found.record, content, loaded, hdone, hscope, hentry, hstate, hid,
    toOption_eq_some.1 hcontent, hfinds, toOption_eq_some.1 hloaded, ?_⟩
  intro halike
  have htypes := halike.typeName_eq
  rw [hnull, hlist] at htypes
  exact absurd htypes (by decide)

end RecordStore
