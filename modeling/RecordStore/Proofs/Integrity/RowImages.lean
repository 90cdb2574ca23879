import RecordStore.Proofs.Integrity.Courses

/-!
# What row images hold

A flush binds the values that it writes, and keeps the others as they are in the row.  So a row holds
nothing but stored forms, however records come into scopes, and it is not empty where it may not be, as
long as a record that comes from outside with a key has its row (`row_images_hold_stored_forms`).  A copy
of a record whose row was deleted has none: what was not changed in it is left empty
(`kept_copy_leaves_column_empty`).
-/

namespace RecordStore

namespace Course

/-- A row is stored, or staged in the open scope. -/
inductive Holds (course : Course) (table : String) (number : UInt64) (row : StoredRow) : Prop where
  | stored (h : course.db.storage.row? table number = .ok (some row))
  | staged (scope : Scope) (hscope : course.db.scope = some scope)
      (h : scope.staged.find? (table, number) = some (some row))

variable {registry : Registry} {terms : Terms} {course : Course} {table : String} {number : UInt64}
  {row : StoredRow}

/-- A row that is stored or staged is visible in some scope that is intact. -/
theorem Intact.visible_of_holds (h : course.Intact registry terms)
    (hrow : course.Holds table number row) :
    ∃ scope : Scope, scope.Intact course.db.environment terms course.deleted ∧
      scope.visibleRow course.db.environment table number = .ok (some row) := by
  cases hrow with
  | stored hstored => exact ⟨_, h.stored course.db.supply, hstored⟩
  | staged scope hscope hstaged =>
      exact ⟨_, h.opened scope hscope, Scope.visibleRow_of_staged hstaged⟩

end Course

/-- Rows hold stored forms.  Take a database to which nothing has happened and any course of events in
which the records that come from outside are of its models.  A row that is stored, or that a flush has
staged, holds a stored form for each column of its model, and a stored form that is not empty is what
binding gives for the column.  When records that come from outside with a key have their rows, a column
that may not be empty is not. -/
theorem row_images_hold_stored_forms {db : Database} (hfresh : db.Fresh) {terms : Terms}
    {events : List Event} (hmeets : Course.Meets terms { db } events) :
    let course := events.foldl Course.step { db }
    ∀ model ∈ db.registry.models, ∀ number row, course.Holds model.tableName number row →
      ∃ columns, row.Holds columns ∧
        columns.map (·.1) = model.columns.map (·.name) ∧
        ∀ column ∈ model.columns,
          (storedColumn columns column.name ≠ .null →
            ∃ value, column.bind model.tableName value = .ok (storedColumn columns column.name)) ∧
          (terms.grounded → column.nullable = false → storedColumn columns column.name ≠ .null) := by
  intro course model hmodel number row hholds
  have h : course.Intact db.registry terms := hfresh.intact hmeets
  obtain ⟨scope, hintact, hrow⟩ := h.visible_of_holds hholds
  have hmodel' : model ∈ course.db.environment.registry.models := h.mem_models hmodel
  obtain ⟨_, -, hcompiled⟩ := hfresh.consistent.mem_compiled hmodel
  obtain ⟨columns, hwrote⟩ := hintact.rows.written model hmodel' number row hrow
  refine ⟨columns, hwrote.holds (hfresh.counted model hmodel), hwrote.names_eq, ?_⟩
  intro column hcolumn
  constructor
  · intro hpresent
    rcases hwrote.admits_column hcompiled.columns_nodup hcolumn with hnull | hbound
    · exact absurd hnull hpresent
    · exact hbound
  · intro hgrounded hnullable
    exact hintact.filled hgrounded model hmodel' number columns ⟨row, hrow, hwrote⟩ column hcolumn
      hnullable

/-! ## Notes that are kept -/

/-- Notes, whose titles may not be empty. -/
def titledNotes : Database := .inMemory [
  .register (.declaration {
    name := "Note", tableName := some "notes", relatedName := some "notes"
    overrides := [
      ("title", .typed (.column { kind := .text, nullable := false })),
      ("body", .typed (.column { kind := .text }))] })]

theorem titledNotes_fresh : titledNotes.Fresh := by
  refine Database.fresh_inMemory ?_ (by decide +kernel)
  simp [Registry.Call.Admissible, Candidate.Admissible, Blueprint.Composed.base]

/-- A note is made and committed, and found in another scope. -/
def noteIsFound : List Event := [
  .createSchema, .openScope, .deed (.act (.create "Note")),
  .deed (.act (.assign 0 "title" (.text "a"))), .commit, .openScope, .deed (.act (.find "Note" 1))]

/-- The scope is left for another one. -/
def noteIsLeft : List Event := noteIsFound ++ [.rollback, .openScope]

/-- A copy of the note is added and gets a body. -/
def noteIsCopied (copy : Record) : List Event := [
  .deed (.add copy), .deed (.act (.assign 0 "body" (.text "b"))), .deed (.act .flush)]

/-- The title of the copy is kept from the row. -/
theorem row_images_hold_stored_forms_of_copy :
    ∃ copy ∈ (noteIsFound.foldl Course.step { db := titledNotes }).record? 0,
      let course := (noteIsLeft ++ noteIsCopied copy).foldl Course.step { db := titledNotes }
      ∃ row columns, course.Holds "notes" 1 row ∧ row.Holds columns ∧
        storedColumn columns "title" ≠ .null := by
  let terms : Terms := { grounded := True, undeleted := False }
  have hfound : Course.Meets terms { db := titledNotes } noteIsFound :=
    Course.meets_of_brings_nothing (by simp [noteIsFound]) False.elim _
  have hleft : Course.Meets terms { db := titledNotes } noteIsLeft :=
    Course.meets_of_brings_nothing (by simp [noteIsLeft, noteIsFound]) False.elim _
  obtain ⟨copy, hcopy, ⟨hid, htable, column, hcolumn, hname, hnullable⟩, hthere, hstaged⟩ :
      ∃ copy ∈ (noteIsFound.foldl Course.step { db := titledNotes }).record? 0,
        (copy.id = some 1 ∧ copy.model.tableName = "notes" ∧
          ∃ column ∈ copy.model.columns, column.name = "title" ∧ column.nullable = false) ∧
        (let left := noteIsLeft.foldl Course.step { db := titledNotes }
         left.db.scope.all fun scope =>
          (scope.visibleRow left.db.environment "notes" 1).toOption.join.isSome) ∧
        (((noteIsLeft ++ noteIsCopied copy).foldl Course.step { db := titledNotes }).db.scope.bind
          fun scope => scope.staged.find? ("notes", 1)).join.isSome := by
    decide +kernel
  refine ⟨copy, hcopy, ?_⟩
  intro course
  have hregistered : copy.model ∈ titledNotes.registry.models :=
    (titledNotes_fresh.intact hfound).record?_registered hcopy
  have hmeets : Course.Meets terms { db := titledNotes } (noteIsLeft ++ noteIsCopied copy) := by
    have hintact := titledNotes_fresh.intact hleft
    refine hleft.append ⟨?_, Course.meets_of_brings_nothing (by simp) False.elim _⟩
    generalize noteIsLeft.foldl Course.step { db := titledNotes } = left at hthere hintact ⊢
    constructor
    case registered =>
      rintro record ⟨⟩
      exact hintact.mem_models hregistered
    case grounded =>
      rintro - record ⟨⟩ id hid' scope hscope
      obtain rfl := Option.some.inj (hid.symm.trans hid')
      have hrow : (scope.visibleRow left.db.environment "notes" 1).toOption.join.isSome = true := by
        simpa only [hscope, Option.all_some] using hthere
      obtain ⟨row, hrow⟩ := Option.isSome_iff_exists.1 hrow
      rw [htable]
      exact ⟨by decide, row, join_toOption_eq_some.1 hrow⟩
    case undeleted => exact False.elim
  have hmain := row_images_hold_stored_forms titledNotes_fresh hmeets copy.model hregistered 1
  -- From here on the course is not computed any more.
  have hcourse : (noteIsLeft ++ noteIsCopied copy).foldl Course.step { db := titledNotes } = course := rfl
  simp only [hcourse] at hstaged hmain
  clear_value course
  obtain ⟨row, hrow⟩ := Option.isSome_iff_exists.1 hstaged
  obtain ⟨scope, hscope, hrow⟩ := Option.bind_eq_some_iff.1 (Option.join_eq_some_iff.1 hrow)
  have hholds : course.Holds "notes" 1 row := .staged scope hscope hrow
  rw [← htable] at hholds
  obtain ⟨columns, hcolumns, -, hvalid⟩ := hmain row hholds
  rw [← hname]
  rw [htable] at hholds
  exact ⟨row, columns, hholds, hcolumns, (hvalid column hcolumn).2 trivial hnullable⟩

/-- A copy of the note is added after the note was deleted, and gets a body. -/
def noteComesBack (copy : Record) : List Event := [
  .deed (.act (.delete 0)), .commit, .openScope, .deed (.add copy),
  .deed (.act (.assign 0 "body" (.text "b"))), .commit]

/-- A copy may come back without its row.  The title of the note that comes back is empty, though the
column may not be. -/
theorem kept_copy_leaves_column_empty :
    let course := noteIsFound.foldl Course.step { db := titledNotes }
    (∃ note ∈ titledNotes.registry.models, ∃ column ∈ note.columns,
      note.tableName = "notes" ∧ column.name = "title" ∧ column.nullable = false) ∧
    ∃ copy ∈ course.record? 0,
      (((noteComesBack copy).foldl Course.step course).cell? "notes" 1 "title").any Value.isNull := by
  refine ⟨?_, by decide +kernel⟩
  decide +kernel

end RecordStore
