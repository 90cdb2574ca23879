import RecordStore.Proofs.Integrity.Courses

/-!
# What foreign keys name

A flush checks the foreign keys of the rows that it writes.  So a stored row refers to rows that are
there, until they are deleted (`stored_foreign_keys`): deleting a row leaves the rows that refer to it as
they are (`foreign_key_outlives_row`).
-/

namespace RecordStore

namespace Course.Intact

variable {registry : Registry} {terms : Terms} {course : Course}

/-- A stored row is what a scope that was just opened sees. -/
theorem stored_rows (h : course.Intact registry terms) :
    ({ supply := course.db.supply } : Scope).SoundRows course.db.environment course.deleted :=
  (h.stored course.db.supply).rows

/-- A stored row was written for its model, and its foreign keys name rows that are there or that
were deleted. -/
theorem references (h : course.Intact registry terms)
    (hcount : ∀ model ∈ registry.models, model.columns.length < 4294967296) {model : Model}
    (hmodel : model ∈ registry.models) {number : UInt64} {row : StoredRow}
    (hrow : course.db.storage.row? model.tableName number = .ok (some row)) :
    ∃ columns, row.Holds columns ∧
      ∀ column ∈ model.columns, ∀ key, column.foreignKey = some key →
        storedColumn columns column.name ≠ .null →
          ∃ n : Int64, storedColumn columns column.name = .integer n ∧ 0 ≤ n.toInt ∧
            ((∃ target, course.db.storage.row? key.table n.toUInt64 = .ok (some target)) ∨
              (key.table, n.toUInt64) ∈ course.deleted) := by
  have hmodel' : model ∈ course.db.environment.registry.models := h.mem_models hmodel
  obtain ⟨columns, hwrote⟩ := h.stored_rows.written model hmodel' number row hrow
  refine ⟨columns, hwrote.holds (hcount model hmodel), ?_⟩
  intro column hcolumn key hkey hpresent
  obtain ⟨n, hn, hpositive, hthere⟩ :=
    h.stored_rows.references model hmodel' number columns ⟨row, hrow, hwrote⟩ column hcolumn key hkey
      hpresent
  refine ⟨n, hn, hpositive, ?_⟩
  rcases hthere with htarget | hstaged | hdeleted
  · exact Or.inl htarget
  · -- Nothing is staged in a scope that was just opened.
    cases hstaged
  · exact Or.inr hdeleted

end Course.Intact

/-- Foreign keys name rows.  Take a database to which nothing has happened and any course of events in
which the records that come from outside are of its models.  Then every stored row holds columns, and a
foreign key among them that is not empty is a number that a row of the table it refers to has, or had
before a committed scope deleted it.  When no record is deleted, no row was, and the row is there. -/
theorem stored_foreign_keys {db : Database} (hfresh : db.Fresh) {terms : Terms} {events : List Event}
    (hmeets : Course.Meets terms { db } events) :
    let course := events.foldl Course.step { db }
    (∀ model ∈ db.registry.models, ∀ number row,
      course.db.storage.row? model.tableName number = .ok (some row) →
        ∃ columns, row.Holds columns ∧
          ∀ column ∈ model.columns, ∀ key, column.foreignKey = some key →
            storedColumn columns column.name ≠ .null →
              ∃ n : Int64, storedColumn columns column.name = .integer n ∧ 0 ≤ n.toInt ∧
                ((∃ target, course.db.storage.row? key.table n.toUInt64 = .ok (some target)) ∨
                  (key.table, n.toUInt64) ∈ course.deleted)) ∧
      (terms.undeleted → course.deleted = []) := by
  intro course
  have h : course.Intact db.registry terms := hfresh.intact hmeets
  constructor
  · intro model hmodel number row hrow
    exact h.references hfresh.counted hmodel hrow
  · intro hterms
    exact ((h.stored course.db.supply).lasting hterms).2

/-! ## Links and their holders -/

/-- Links, and holders that refer to a link. -/
def linksAndHolders : Database := .inMemory [
  .register (.declaration { name := "Link", tableName := some "links", relatedName := some "links" }),
  .register (.declaration {
    name := "Holder", tableName := some "holders", relatedName := some "holders"
    overrides := [("link", .typed (.reference "Link"))] })]

theorem linksAndHolders_fresh : linksAndHolders.Fresh := by
  refine Database.fresh_inMemory ?_ (by decide +kernel)
  simp [Registry.Call.Admissible, Candidate.Admissible, Blueprint.Composed.base]

/-- A link and a holder that refers to it are made and committed. -/
def linkIsHeld : List Event := [
  .createSchema, .openScope, .deed (.act (.create "Link")), .deed (.act (.create "Holder")),
  .deed (.act (.setReference 1 "link" 0)), .commit]

/-- The link that the holder refers to is there, since nothing is deleted. -/
theorem stored_foreign_keys_of_holder :
    let course := linkIsHeld.foldl Course.step { db := linksAndHolders }
    ∃ n : Int64, course.cell? "holders" 1 "_link_id" = some (.integer n) ∧ 0 ≤ n.toInt ∧
      ∃ target, course.db.storage.row? "links" n.toUInt64 = .ok (some target) := by
  intro course
  let terms : Terms := { grounded := True, undeleted := True }
  have hmeets : Course.Meets terms { db := linksAndHolders } linkIsHeld :=
    Course.meets_of_brings_nothing (by simp [linkIsHeld]) (by simp [linkIsHeld]) _
  obtain ⟨holder, hholder, htable, column, hcolumn, hname, key, hkey, htarget⟩ :
      ∃ holder ∈ linksAndHolders.registry.models, holder.tableName = "holders" ∧
        ∃ column ∈ holder.columns, column.name = "_link_id" ∧
          ∃ key, column.foreignKey = some key ∧ key.table = "links" :=
    ⟨_, List.mem_cons_of_mem _ List.mem_cons_self, rfl, _,
      List.mem_of_getElem? (show _ = some _ from (rfl : _[2]? = _)), rfl, _, rfl, rfl⟩
  have hone : (course.cell? "holders" 1 "_link_id").bind Value.asInteger? = some 1 := by
    decide +kernel
  obtain ⟨hkeys, hnone⟩ := stored_foreign_keys linksAndHolders_fresh hmeets
  -- From here on the course is not computed any more.
  have hcourse : linkIsHeld.foldl Course.step { db := linksAndHolders } = course := rfl
  rw [hcourse] at hkeys hnone
  clear_value course
  obtain ⟨value, hcell, hinteger⟩ := Option.bind_eq_some_iff.1 hone
  obtain ⟨row, columns, hrow, hcolumns, rfl⟩ := Course.cell?_eq_some.1 hcell
  rw [← htable] at hrow
  rw [← hname] at hcell hinteger
  have hpresent : storedColumn columns column.name ≠ .null := by
    intro hnull
    rw [hnull] at hinteger
    cases hinteger
  obtain ⟨_, hholds, hcolumn'⟩ := hkeys holder hholder 1 row hrow
  obtain rfl := hholds.of_decodeRow hcolumns
  obtain ⟨n, hn, hpositive, hthere⟩ := hcolumn' column hcolumn key hkey hpresent
  rw [hname] at hcell hn
  rw [htarget, hnone trivial] at hthere
  refine ⟨n, hcell.trans (congrArg some hn), hpositive, ?_⟩
  rcases hthere with hfound | hdeleted
  · exact hfound
  · cases hdeleted

/-- The link is deleted in another scope. -/
def linkIsDeleted : List Event :=
  linkIsHeld ++ [.openScope, .deed (.act (.find "Link" 1)), .deed (.act (.delete 0)), .commit]

/-- A foreign key may outlive the row that it names: the holder still refers to the link that was
deleted. -/
theorem foreign_key_outlives_row :
    let course := linkIsDeleted.foldl Course.step { db := linksAndHolders }
    (course.cell? "holders" 1 "_link_id").bind Value.asInteger? = some 1 ∧
      (course.db.storage.row? "links" 1).toOption = some none := by
  decide +kernel

end RecordStore
