import RecordStore.Proofs.Integrity.Tasks

/-!
# Records show their rows

A row presents content: what is read from its columns where the times of day in them can be read
(`Model.Presents`).  After a flush each live record of a scope shows what its row presents, as far as only
records that were made or found in the scope are in it (`records_show_their_rows`).  What a record shows need
not be what would be loaded: a number is not converted in the record when it is in the row, an item of a
container may be replaced by an equal one without being written, a primary key beside the key of the model
stays empty, and a time of day that cannot be read is written all the same (`new_note_differs_from_its_row`).
-/

namespace RecordStore

/-! ## What rows present -/

/-- The content of a row of a model, column by column.  Nothing else is read from the row; a column is read
where all times of day in its content can be, and the row as a whole is loaded where all columns of data
are. -/
structure Model.Presents (model : Model) (row : StoredRow) (content : Column → Value) : Prop where
  read : ∀ column ∈ model.columns, ∀ loaded,
    row.read column = .ok loaded ↔ (content column).Readable ∧ loaded = content column
  canLoad : model.CanLoad row ↔ ∀ column, model.DataColumn column → (content column).Readable

/-- A row that was written presents what its stored forms stand for. -/
theorem Model.Wrote.presents {find? : String → Option Model} {model : Model} {row : StoredRow}
    {columns : List (String × Value)} (h : model.Wrote row columns) (hcompiled : model.Compiled find?)
    (hcount : model.columns.length < 4294967296) {content : Column → Value}
    (hreloads : ∀ column ∈ model.columns,
      column.Reloads (storedColumn columns column.name) (content column)) :
    model.Presents row content := by
  have hadmits : ∀ column ∈ model.columns,
      column.Admits model.tableName (storedColumn columns column.name) := fun column hcolumn =>
    h.admits_column hcompiled.columns_nodup hcolumn
  have hread := Model.canLoad_iff hcompiled (h.holds hcount) h.fits
  refine ⟨fun column hcolumn loaded =>
    h.read_eq_ok hcount hcompiled.columns_nodup hcolumn (hreloads column hcolumn), ?_⟩
  rw [hread]
  constructor
  · intro hall column hdata
    exact ((hreloads column hdata.mem).readable_iff (hadmits column hdata.mem)).2 (hall column hdata.mem)
  · -- The keys in a row are integers, which can always be read.
    intro hall column hcolumn
    have hkey : column.kind = .integer → (storedColumn columns column.name).Readable ∧
        ∃ value, column.load (storedColumn columns column.name) = .ok value := fun hkind =>
      ⟨(hadmits column hcolumn).readable_of_integer hkind, _,
        (hadmits column hcolumn).load_eq (by rw [hkind]; rfl)⟩
    rcases hcompiled.column_cases hcolumn with ⟨_, _, rfl⟩ | ⟨hkind, -, -⟩ | ⟨hown, hforeign⟩
    · exact hkey rfl
    · exact hkey hkind
    · exact ((hreloads column hcolumn).readable_iff (hadmits column hcolumn)).1
        (hall column ⟨hcolumn, hown, hforeign⟩)

namespace Scope

variable {env : Environment} {deleted : List (String × UInt64)} {scope : Scope} {handle : Handle}
  {entry : Entry}

/-- A record has its row, and in each column its value is related to what the row presents. -/
def ShowsRow (env : Environment) (scope : Scope) (related : Column → Value → Value → Prop)
    (record : Record) : Prop :=
  ∃ id row content, record.id = some id ∧
    scope.visibleRow env record.model.tableName id.toUInt64 = .ok (some row) ∧
    record.model.Presents row content ∧ ∀ column ∈ record.model.columns, ∃ value,
      record.get column.name = .ok value ∧ related column value (content column)

/-- A live record of which nothing is marked has its row, which it mirrors in the key and in all columns
that are not primary keys. -/
theorem Aligned.showsRow (hregistry : env.registry.Consistent)
    (hcount : ∀ model ∈ env.registry.models, model.columns.length < 4294967296)
    (h : scope.Aligned env deleted) (hsettled : scope.Settled)
    (hentry : scope.entries[handle]? = some entry) (hlive : entry.state.isLive = true) :
    scope.ShowsRow env (fun column value content =>
      (column.primaryKey = true → entry.record.model.primaryKey? = some column) →
        column.Mirrors value content) entry.record := by
  have hstanding := standing_of_entry hentry
  have hmodel := h.anchored.rooted.registered handle _ hstanding
  obtain ⟨hpersistent, hunmarked⟩ : entry.state = .persistent ∧ entry.record.changed = ∅ := by
    rcases hsettled handle entry hentry with hstored | hremoved
    · exact hstored
    · rw [hremoved] at hlive
      cases hlive
  obtain ⟨id, row, hid, hrow⟩ :=
    (h.anchored.keyed.records handle _ hstanding).present (Or.inl hpersistent)
  obtain ⟨columns, hwrote⟩ := h.anchored.rows.written _ hmodel _ row hrow
  have hholds := hwrote.holds (hcount _ hmodel)
  obtain ⟨_, -, hcompiled⟩ := hregistry.mem_compiled hmodel
  have hfaithful := h.mirrored.entries handle entry hentry
  have hcontent : ∀ column ∈ entry.record.model.columns, ∃ content,
      column.Reloads (storedColumn columns column.name) content ∧ ∃ value,
        entry.record.get column.name = .ok value ∧
        ((column.primaryKey = true → entry.record.model.primaryKey? = some column) →
          column.Mirrors value content) := by
    intro column hcolumn
    cases hprimary : column.primaryKey with
    | false =>
        obtain ⟨value, content, hvalue, hreloads, hmirrors⟩ := hfaithful.reflects hpersistent id row
          columns hid hrow hholds column hcolumn hprimary (by unfold Record.isChanged; rw [hunmarked]; rfl)
        exact ⟨content, hreloads, value, Record.get_eq_ok.2 hvalue, fun _ => hmirrors⟩
    | true =>
        -- The row holds its number, and so does the record if this is its key.
        have hstored :=
          h.anchored.holdsKeys _ hmodel _ columns ⟨row, hrow, hwrote⟩ column hcolumn hprimary
        rw [Int64.toInt64_toUInt64] at hstored
        obtain ⟨value, hvalue⟩ := hfaithful.whole.complete column hcolumn
        refine ⟨.integer id, hstored ▸ column.reloads_integer id, value, Record.get_eq_ok.2 hvalue, ?_⟩
        intro hkey
        have hown := hfaithful.whole.keyed id column hid (hkey rfl)
        rw [hvalue] at hown
        cases hown
        exact .refl column _
  choose! content hreloads hrelated using hcontent
  exact ⟨id, row, content, hid, hrow, hwrote.presents hcompiled (hcount _ hmodel) hreloads, hrelated⟩

end Scope

/-- A flush leaves an aligned scope settled. -/
theorem Course.Aligned.flushed {registry : Registry} {course : Course} (hregistry : registry.Consistent)
    (hcount : ∀ model ∈ registry.models, model.columns.length < 4294967296)
    (hdefaults : registry.OrderedDefaults) (h : course.Aligned) (hsame : course.db.registry = registry)
    {scope flushed : Scope}
    (hscope : course.db.scope = some scope)
    (hflush : (Scope.flush course.db.environment).run { scope with supply := course.db.supply } =
      .ok () flushed) :
    flushed.Aligned course.db.environment course.deleted ∧ flushed.Settled ∧
      scope.KeepsStored flushed := by
  subst hsame
  have haligned := h scope hscope
  have hends := (Scope.lookable_aligned hregistry hcount hdefaults course.deleted).flush _ haligned
  have hupheld := (Scope.flush_upheld hregistry hcount hdefaults haligned.anchored
    haligned.mirrored).of_ok hflush
  exact ⟨hends.of_ok hflush, hupheld.2, hupheld.1.stored⟩

/-- Records show their rows.  Take a database to which nothing has happened and any course of events after
which no scope is open and the rows have numbers that were given.  Open a scope, and do any tasks in it.
After a flush that succeeds, each live record of the scope has its row.  In each column, of those that are
primary keys only in the key of the model, the value of the record is what the row presents, or its items
are alike, each at its place, or it is an integer and the row presents a number of another type.  What the row
presents is what is read from it, unless a time of day in it cannot be read. -/
theorem records_show_their_rows {db : Database} (hfresh : db.Fresh)
    (hdefaults : db.registry.OrderedDefaults) {terms : Terms} {events : List Event}
    (hmeets : Course.Meets terms { db } events)
    (hclosed : (events.foldl Course.step { db }).db.scope = none)
    (hnumbered : (events.foldl Course.step { db }).db.Numbered) {tasks : List Task}
    (hordered : ∀ task ∈ tasks, task.Ordered) {after : Database} {scope : Scope}
    (hflush : (((events.foldl Course.step { db }).step .openScope).work tasks).db.run Scope.flush =
      (.ok (), after)) (hscope : after.scope = some scope) {handle : Handle} {entry : Entry}
    (hentry : scope.entries[handle]? = some entry) (hlive : entry.state.isLive = true) :
    scope.ShowsRow after.environment (fun column value content =>
      (column.primaryKey = true → entry.record.model.primaryKey? = some column) →
        column.Mirrors value content) entry.record := by
  obtain ⟨haligned, hsame⟩ := hfresh.aligned_work hdefaults hmeets hclosed hnumbered hordered
  generalize ((events.foldl Course.step { db }).step .openScope).work tasks = course at *
  obtain ⟨started, flushed, hstarted, hrun, rfl⟩ := Database.run_eq_ok.1 hflush
  cases hscope
  obtain ⟨hafter, hsettled, -⟩ := haligned.flushed hfresh.consistent hfresh.counted hdefaults hsame
    hstarted hrun
  have hcounted : ∀ model ∈ course.db.registry.models, model.columns.length < 4294967296 :=
    hsame ▸ hfresh.counted
  have hconsistent : course.db.registry.Consistent := hsame ▸ hfresh.consistent
  exact hafter.showsRow hconsistent hcounted hsettled hentry hlive

/-! ## Notes that are graded -/

/-- Notes with a grade, marks and a place, which is a primary key beside the key of all models. -/
def gradedNotes : Database := .inMemory [
  .register (.declaration {
    name := "Note", tableName := some "notes", relatedName := some "notes"
    overrides := [
      ("grade", .typed (.column { kind := .float })),
      ("marks", .typed (.column { kind := .container .list })),
      ("place", .typed .primaryKey)] })]

theorem gradedNotes_fresh : gradedNotes.Fresh := by
  refine Database.fresh_inMemory ?_ (by decide +kernel)
  simp [Registry.Call.Admissible, Candidate.Admissible, Blueprint.Composed.base]

theorem gradedNotes_orderedDefaults : gradedNotes.registry.OrderedDefaults := by
  intro model hmodel column hcolumn value hvalue
  have hnone : ∀ model ∈ gradedNotes.registry.models, ∀ column ∈ model.columns,
      column.default.isNone = true := by decide +kernel
  have hdefault := hnone model hmodel column hcolumn
  rw [hvalue] at hdefault
  cases hdefault

/-- A note is made and committed. -/
def noteIsKept : List Event := [
  .createSchema, .openScope, .deed (.act (.create "Note")),
  .deed (.act (.assign 0 "marks" (.list []))), .commit]

/-- The note is found; it gets a grade and a mark, and a mark that is not there is not taken away. -/
def noteIsGraded : List Task := [
  .act (.find "Note" 1), .act (.assign 0 "grade" (.integer 1)),
  .list 0 "marks" [.push (.integer 2), .remove 7]]

theorem noteIsKept_meets :
    Course.Meets { grounded := True, undeleted := True } { db := gradedNotes } noteIsKept :=
  Course.meets_of_brings_nothing (by simp [noteIsKept]) (by simp [noteIsKept]) _

theorem noteIsKept_numbered : (noteIsKept.foldl Course.step { db := gradedNotes }).db.Numbered :=
  (gradedNotes_fresh.intact noteIsKept_meets).numbered trivial

theorem noteIsKept_closed : (noteIsKept.foldl Course.step { db := gradedNotes }).db.scope = none := by
  rw [← Option.isNone_iff_eq_none]
  decide +kernel

theorem noteIsGraded_ordered : ∀ task ∈ noteIsGraded, task.Ordered := by
  simp [noteIsGraded, Task.Ordered, ListChange.values, Value.KeyOrdered]

/-- The graded note mirrors its row. -/
theorem records_show_their_rows_of_note :
    let course := ((noteIsKept.foldl Course.step { db := gradedNotes }).step .openScope).work noteIsGraded
    ∃ after scope entry, course.db.run Scope.flush = (.ok (), after) ∧ after.scope = some scope ∧
      scope.entries[0]? = some entry ∧ entry.record.id = some 1 ∧
      scope.ShowsRow after.environment (fun column value content =>
        (column.primaryKey = true → entry.record.model.primaryKey? = some column) →
          column.Mirrors value content) entry.record := by
  obtain ⟨hflush, scope, hscope, entry, hentry, hid, hlive⟩ :
      let run := (((noteIsKept.foldl Course.step { db := gradedNotes }).step .openScope).work
        noteIsGraded).db.run Scope.flush
      run.1 = .ok () ∧ ∃ scope ∈ run.2.scope, ∃ entry ∈ scope.entries[0]?,
        entry.record.id = some 1 ∧ entry.state.isLive = true := by
    decide +kernel
  have hmain := @records_show_their_rows _ gradedNotes_fresh gradedNotes_orderedDefaults _ _
    noteIsKept_meets noteIsKept_closed noteIsKept_numbered _ noteIsGraded_ordered
  -- From here on the course is not computed any more.
  generalize ((noteIsKept.foldl Course.step { db := gradedNotes }).step .openScope).work noteIsGraded =
    course at *
  have hdone : course.db.run Scope.flush = (.ok (), (course.db.run Scope.flush).2) :=
    Prod.ext hflush rfl
  exact ⟨_, scope, entry, hdone, hscope, hentry, hid, hmain hdone hscope hentry hlive⟩

/-- A note is made with a grade and two marks, of which the first is no number.  After a flush the second
one is replaced by a zero of the other sign.  Another note has a time of day for a mark that cannot be
read. -/
def noteIsNew : List Task := [
  .act (.create "Note"), .act (.assign 0 "grade" (.integer 1)),
  .act (.assign 0 "marks" (.list [.float ⟨9221120237041090560⟩, .float ⟨0⟩])), .act .flush,
  .list 0 "marks" [.set 1 (.float ⟨9223372036854775808⟩)],
  .act (.create "Note"),
  .act (.assign 1 "marks" (.list [.time .strayLeap]))]

/-- The first note does not show what is read from its row.  Its grade is an integer, though a floating-point
number is in the row; its marks have changed without being written, and are not equal to those in the row
since what is no number equals nothing; and its place is empty, though the row holds its number there.  The
marks of the second note are in its row, from which they cannot be read. -/
theorem new_note_differs_from_its_row :
    let course := (Course.step (.step { db := gradedNotes } .createSchema) .openScope).work noteIsNew
    (course.db.run Scope.flush).1 = .ok () ∧
    ∃ scope, (course.db.run Scope.flush).2.scope = some scope ∧
      (∃ entry id row, scope.entries[0]? = some entry ∧ entry.state.isLive = true ∧
        entry.record.id = some id ∧
        scope.visibleRow course.db.environment entry.record.model.tableName id.toUInt64 =
          .ok (some row) ∧
        ∀ name ∈ ["grade", "marks", "place"], ∃ column ∈ entry.record.model.columns,
          column.name = name ∧ ∃ value loaded, entry.record.get column.name = .ok value ∧
            row.read column = .ok loaded ∧ ¬loaded.Alike value) ∧
      ∃ entry id row, scope.entries[1]? = some entry ∧ entry.state.isLive = true ∧
        entry.record.id = some id ∧
        scope.visibleRow course.db.environment entry.record.model.tableName id.toUInt64 =
          .ok (some row) ∧
        ∃ column ∈ entry.record.model.columns, column.name = "marks" ∧
          ∀ loaded, row.read column ≠ .ok loaded := by
  obtain ⟨hflush, scope, hscope, ⟨entry, hentry, hlive, id, hid, row, hrow, hdiffer⟩,
      other, hother, hstands, key, hkey, found, hfound, marks, hmarks, hname, hunread⟩ :
      let course := (Course.step (.step { db := gradedNotes } .createSchema) .openScope).work noteIsNew
      (course.db.run Scope.flush).1 = .ok () ∧
      ∃ scope ∈ (course.db.run Scope.flush).2.scope,
        (∃ entry ∈ scope.entries[0]?, entry.state.isLive = true ∧ ∃ id ∈ entry.record.id,
          ∃ row ∈ (scope.visibleRow course.db.environment entry.record.model.tableName
            id.toUInt64).toOption.join,
          ∀ name ∈ ["grade", "marks", "place"], ∃ column ∈ entry.record.model.columns,
            column.name = name ∧ ∃ value ∈ (entry.record.get column.name).toOption,
            ∃ loaded ∈ (row.read column).toOption,
              (loaded.encode.toOption == value.encode.toOption || loaded.equals value) = false) ∧
        ∃ entry ∈ scope.entries[1]?, entry.state.isLive = true ∧ ∃ id ∈ entry.record.id,
          ∃ row ∈ (scope.visibleRow course.db.environment entry.record.model.tableName
            id.toUInt64).toOption.join,
          ∃ column ∈ entry.record.model.columns, column.name = "marks" ∧
            (row.read column).toOption.isNone = true := by
    decide +kernel
  -- From here on the course is not computed any more.
  generalize (Course.step (.step { db := gradedNotes } .createSchema) .openScope).work noteIsNew =
    course at *
  refine ⟨hflush, scope, hscope, ⟨entry, id, row, hentry, hlive, hid, join_toOption_eq_some.1 hrow, ?_⟩,
    other, key, found, hother, hstands, hkey, join_toOption_eq_some.1 hfound, marks, hmarks, hname, ?_⟩
  · intro name hname
    obtain ⟨column, hcolumn, hsame, value, hvalue, loaded, hloaded, hdiffer⟩ := hdiffer name hname
    refine ⟨column, hcolumn, hsame, value, loaded, toOption_eq_some.1 hvalue,
      toOption_eq_some.1 hloaded, ?_⟩
    rw [Bool.or_eq_false_iff] at hdiffer
    rintro (rfl | hequal)
    · simp at hdiffer
    · rw [hdiffer.2] at hequal
      cases hequal
  · intro loaded hloaded
    rw [hloaded] at hunread
    cases hunread

end RecordStore
