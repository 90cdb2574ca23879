import RecordStore.Proofs.Integrity.Courses
import RecordStore.Proofs.Scope.Failures

/-!
# What unique columns hold

A flush compares the stored forms of a unique column, so no two visible rows hold equal ones.  Stored
forms are equal when the values are, except for values that are kept as encoded blobs: there the bytes
are compared, and equal values such as two sets with the same members in another order may stand in
several rows (`equal_sets_in_unique_column`).  Everywhere else unique columns hold distinct values, and
at most one record is found by the value of a unique column (`unique_columns_hold_distinct_values`).
-/

namespace RecordStore

/-! ## What is selected -/

namespace Scope

variable {env : Environment} {terms : Terms} {deleted : List (String × UInt64)} {scope : Scope}
  {model : Model} {column : Column} {value : Value}

theorem selectRow_passing (model : Model) (filter : Option (Column × Value))
    (row : UInt64 × StoredRow) (start : Scope) :
    (selectRow env model filter row).Ends start
      (fun handle _ => handle.isSome = true → passes filter row.2 = .ok true) (fun _ => True) := by
  have hany : ∀ {handle : Option Handle} {after : Scope}, passes filter row.2 = .ok true →
      (pure handle : ScopeM (Option Handle)).Ends after
        (fun handle _ => handle.isSome = true → passes filter row.2 = .ok true) (fun _ => True) :=
    fun hpassed => ScopeM.ends_pure fun _ => hpassed
  unfold selectRow
  refine ScopeM.ends_lift_bind ?_ trivial
  intro passed hpassed
  cases passed with
  | false => exact ScopeM.ends_pure fun hsome => by (cases hsome)
  | true =>
      refine ScopeM.ends_lift_bind ?_ trivial
      intro id _
      refine ScopeM.ends_get_bind ?_
      cases start.identity.find? (model.name, id) with
      | some handle => exact hany hpassed
      | none => exact ScopeM.ends_bind (ScopeM.ends_trivial _ _) fun _ _ _ => hany hpassed

/-- Each record that is selected stands for a row that passes. -/
theorem selectRows_passing (model : Model) (filter : Option (Column × Value))
    (rows : List (UInt64 × StoredRow)) (start : Scope) :
    (selectRows env model filter rows).Ends start
      (fun handles _ => ∃ found : List (UInt64 × StoredRow), found.Sublist rows ∧
        found.length = handles.length ∧ ∀ row ∈ found, passes filter row.2 = .ok true)
      (fun _ => True) := by
  induction rows generalizing start with
  | nil => exact ScopeM.ends_pure ⟨[], List.Sublist.refl [], rfl, fun _ h => by (cases h)⟩
  | cons row rest ih =>
      unfold selectRows
      refine ScopeM.ends_bind (selectRow_passing model filter row start) ?_
      intro handle after hpassed
      cases handle with
      | none =>
          refine (ih after).mono ?_ fun _ h => h
          rintro handles _ ⟨found, hfound, hlength, hpasses⟩
          exact ⟨found, hfound.cons row, hlength, hpasses⟩
      | some handle =>
          refine ScopeM.ends_bind (ih after) ?_
          rintro handles _ ⟨found, hfound, hlength, hpasses⟩
          refine ScopeM.ends_pure ⟨row :: found, hfound.cons_cons row, congrArg (· + 1) hlength, ?_⟩
          intro other hother
          rcases List.mem_cons.1 hother with rfl | hlater
          · exact hpassed rfl
          · exact hpasses other hlater

/-- What is found by a value are rows that hold it, as they are seen after a flush. -/
theorem findAll_passing (hregistry : env.registry.Consistent) (hrooted : scope.Rooted env)
    (hmodel : model ∈ env.registry.models) {attr : String}
    (hcolumn : model.attributeColumn? attr = some column) (value : Value) :
    (findAll env model.name attr value).Ends scope
      (fun handles _ => ∃ flushed : Scope, scope.Reaches env terms flushed ∧ ∃ rows,
        flushed.visibleRows env model.tableName = .ok rows ∧
        ∃ found : List (UInt64 × StoredRow), found.Sublist rows.toList ∧
          found.length = handles.length ∧ ∀ row ∈ found, holds column value row.2 = .ok true)
      (fun _ => True) := by
  have hflush : (flush env).Ends scope (fun _ => scope.Reaches env terms) (scope.Reaches env terms) :=
    flush_reaches hrooted scope Relation.ReflTransGen.refl
  refine ScopeM.ends_bind (hflush.mono (fun _ _ h => h) fun _ _ => trivial) ?_
  intro _ flushed hflushed
  refine ScopeM.ends_lift_bind_of_ok (hregistry.model_eq_ok.2 ⟨hmodel, rfl⟩) ?_
  have hfilter : resolveFilter model (some (attr, value)) = .ok (some (column, value)) := by
    unfold resolveFilter
    simp only [hcolumn]
  refine ScopeM.ends_lift_bind_of_ok hfilter ?_
  refine ScopeM.ends_get_bind (ScopeM.ends_consult_bind ?_ trivial)
  intro rows hrows
  refine (selectRows_passing model (some (column, value)) rows.toList _).mono ?_ fun _ h => h
  rintro handles _ ⟨found, hfound, hlength, hpasses⟩
  exact ⟨flushed, hflushed, rows, hrows, found, hfound, hlength, hpasses⟩

/-! ## What unique columns hold -/

/-- A row holds a value in a plain column when its stored form equals the value. -/
theorem equals_of_holds {row : StoredRow} {columns : List (String × Value)}
    (hwrote : model.Wrote row columns) (hcount : model.columns.length < 4294967296)
    (hdistinct : (model.columns.map (·.name)).Nodup) (hmem : column ∈ model.columns)
    (hkind : column.kind.isEncoded = false) (h : holds column value row = .ok true) :
    (storedColumn columns column.name).equalsScalar value = true := by
  have hadmits := hwrote.admits_column hdistinct hmem
  obtain ⟨found, hfound, h⟩ := bind_eq_ok.1 h
  obtain ⟨-, hstored⟩ := (hwrote.holds hcount).of_getColumn (ofData_eq_ok.1 hfound)
  obtain ⟨loaded, hloaded, h⟩ := bind_eq_ok.1 h
  rw [hstored] at hloaded
  obtain rfl := Except.ok.inj ((hadmits.load_eq hkind).symm.trans hloaded)
  rw [← Value.equals_of_scalar hadmits.containerKind?_eq]
  exact pure_eq_ok.1 h

/-- Two rows hold stored forms in a unique column that are not equal, unless they are empty.  Where
values are not kept as blobs, what is loaded from the column is not equal either. -/
theorem SoundRows.distinct (h : scope.SoundRows env deleted) (hregistry : env.registry.Consistent)
    (hcount : ∀ model ∈ env.registry.models, model.columns.length < 4294967296)
    (hmodel : model ∈ env.registry.models) (hmem : column ∈ model.columns)
    (hunique : column.unique = true) {a b : UInt64} {row other : StoredRow} (hne : a ≠ b)
    (ha : scope.visibleRow env model.tableName a = .ok (some row))
    (hb : scope.visibleRow env model.tableName b = .ok (some other)) :
    ∃ columns others, row.Holds columns ∧ other.Holds others ∧
      (storedColumn columns column.name ≠ .null →
        (storedColumn columns column.name).equals (storedColumn others column.name) = false ∧
        (column.kind.isEncoded = false → ∃ u v,
          column.load (storedColumn columns column.name) = .ok u ∧
          column.load (storedColumn others column.name) = .ok v ∧ u.equals v = false)) := by
  obtain ⟨_, -, hcompiled⟩ := hregistry.mem_compiled hmodel
  obtain ⟨columns, hcolumns⟩ := h.written model hmodel a row ha
  obtain ⟨others, hothers⟩ := h.written model hmodel b other hb
  refine ⟨columns, others, hcolumns.holds (hcount model hmodel),
    hothers.holds (hcount model hmodel), ?_⟩
  intro hpresent
  have hdistinct := h.unique model hmodel column hmem hunique a b columns others hne
    ⟨row, ha, hcolumns⟩ ⟨other, hb, hothers⟩ hpresent
  refine ⟨hdistinct, ?_⟩
  intro hkind
  exact ⟨_, _, (hcolumns.admits_column hcompiled.columns_nodup hmem).load_eq hkind,
    (hothers.admits_column hcompiled.columns_nodup hmem).load_eq hkind, hdistinct⟩

/-- Two rows do not hold the same value in a unique column that is not kept as a blob. -/
theorem SoundRows.eq_of_holds (h : scope.SoundRows env deleted) (hregistry : env.registry.Consistent)
    (hcount : ∀ model ∈ env.registry.models, model.columns.length < 4294967296)
    (hmodel : model ∈ env.registry.models) (hmem : column ∈ model.columns)
    (hunique : column.unique = true) (hkind : column.kind.isEncoded = false) (hpresent : value ≠ .null)
    {a b : UInt64} {row other : StoredRow}
    (ha : scope.visibleRow env model.tableName a = .ok (some row)) (hrow : holds column value row = .ok true)
    (hb : scope.visibleRow env model.tableName b = .ok (some other))
    (hother : holds column value other = .ok true) : a = b := by
  by_contra hne
  obtain ⟨_, -, hcompiled⟩ := hregistry.mem_compiled hmodel
  obtain ⟨as, has⟩ := h.written model hmodel a row ha
  obtain ⟨bs, hbs⟩ := h.written model hmodel b other hb
  have hleft := equals_of_holds has (hcount _ hmodel) hcompiled.columns_nodup hmem hkind hrow
  have hright := equals_of_holds hbs (hcount _ hmodel) hcompiled.columns_nodup hmem hkind hother
  have hsame := Value.equalsScalar_trans hleft (Value.equalsScalar_symm hright)
  have hstored : storedColumn as column.name ≠ .null := by
    intro hnull
    rw [hnull] at hleft
    cases value with
    | null => exact hpresent rfl
    | _ => cases hleft
  have hdistinct := h.unique model hmodel column hmem hunique a b as bs hne ⟨row, ha, has⟩
    ⟨other, hb, hbs⟩ hstored
  have hscalar := (has.admits_column hcompiled.columns_nodup hmem).containerKind?_eq
  rw [Value.equals_of_scalar hscalar, hsame] at hdistinct
  cases hdistinct

/-- At most one record is found by a value of a unique column that is not kept as a blob. -/
theorem Intact.findAll_le_one (h : scope.Intact env terms deleted) (hregistry : env.registry.Consistent)
    (hcount : ∀ model ∈ env.registry.models, model.columns.length < 4294967296)
    (hmodel : model ∈ env.registry.models) (hmem : column ∈ model.columns)
    (hunique : column.unique = true) (hkind : column.kind.isEncoded = false) {attr : String}
    (hcolumn : model.attributeColumn? attr = some column) (hpresent : value ≠ .null) :
    (findAll env model.name attr value).Ends scope (fun handles _ => handles.length ≤ 1)
      (fun _ => True) := by
  have hfound : (findAll env model.name attr value).Ends scope
      (fun handles _ => ∃ flushed : Scope, scope.Reaches env terms flushed ∧ ∃ rows,
        flushed.visibleRows env model.tableName = .ok rows ∧
        ∃ found : List (UInt64 × StoredRow), found.Sublist rows.toList ∧
          found.length = handles.length ∧ ∀ row ∈ found, holds column value row.2 = .ok true)
      (fun _ => True) := findAll_passing hregistry h.rooted hmodel hcolumn value
  refine hfound.mono ?_ fun _ h => h
  rintro handles _ ⟨flushed, hreaches, rows, hrows, found, hsub, hlength, hholds⟩
  rw [← hlength]
  have hflushed : flushed.SoundRows env deleted := (h.reaches hregistry hcount hreaches).rows
  have hvisible : ∀ row ∈ found,
      flushed.visibleRow env model.tableName row.1 = .ok (some row.2) := by
    intro row hrow
    rw [find?_visibleRows hrows, SortedMap.find?_eq_some_iff.2 (hsub.subset hrow)]
  -- Two rows that are found have different numbers.
  have hnodup : (found.map (·.1)).Nodup := rows.sorted.nodup_keys.sublist (hsub.map _)
  match found, hholds, hvisible, hnodup with
  | [], _, _, _ => exact Nat.zero_le 1
  | [_], _, _, _ => exact Nat.le_refl 1
  | a :: b :: rest, hholds, hvisible, hnodup =>
      have ha : a ∈ a :: b :: rest := List.mem_cons_self
      have hb : b ∈ a :: b :: rest := List.mem_cons_of_mem _ List.mem_cons_self
      have hsame : a.1 = b.1 := hflushed.eq_of_holds hregistry hcount hmodel hmem hunique hkind hpresent
        (hvisible a ha) (hholds a ha) (hvisible b hb) (hholds b hb)
      rw [List.map_cons, List.map_cons, hsame] at hnodup
      exact absurd List.mem_cons_self (List.nodup_cons.1 hnodup).1

theorem Intact.findOne_not_multiple (h : scope.Intact env terms deleted)
    (hregistry : env.registry.Consistent)
    (hcount : ∀ model ∈ env.registry.models, model.columns.length < 4294967296)
    (hmodel : model ∈ env.registry.models) (hmem : column ∈ model.columns)
    (hunique : column.unique = true) (hkind : column.kind.isEncoded = false) {attr : String}
    (hcolumn : model.attributeColumn? attr = some column) (hpresent : value ≠ .null) {name : String}
    {after : Scope} :
    (findOne env model.name attr value).run scope ≠ .error (.multipleResults name) after := by
  intro hrun
  unfold findOne at hrun
  rw [EStateM.run_bind] at hrun
  cases hfound : (findAll env model.name attr value).run scope with
  | error error middle =>
      rw [hfound] at hrun
      cases hrun
      exact ScopeM.unambiguous_select env model.name _ scope _ after hfound name rfl
  | ok handles middle =>
      rw [hfound] at hrun
      have hle := (h.findAll_le_one hregistry hcount hmodel hmem hunique hkind hcolumn hpresent).of_ok
        hfound
      match handles with
      | [] => cases hrun
      | [_] => cases hrun
      | _ :: _ :: rest => simp at hle

end Scope

/-- Unique columns hold distinct values.  Take a database to which nothing has happened and any course
of events in which the records that come from outside are of its models.  Two rows that the open scope
sees hold stored forms in a unique column that are not equal, unless they are empty; where values are not
kept as blobs, the values that are loaded are not equal either.  By such a value at most one record is
found, and looking for the only one does not fail because there are several. -/
theorem unique_columns_hold_distinct_values {db : Database} (hfresh : db.Fresh) {terms : Terms}
    {events : List Event} (hmeets : Course.Meets terms { db } events) :
    let course := events.foldl Course.step { db }
    ∀ scope, course.db.scope = some scope → ∀ model ∈ db.registry.models, ∀ column ∈ model.columns,
      column.unique = true →
        (∀ a b row other, a ≠ b →
          scope.visibleRow course.db.environment model.tableName a = .ok (some row) →
          scope.visibleRow course.db.environment model.tableName b = .ok (some other) →
            ∃ columns others, row.Holds columns ∧ other.Holds others ∧
              (storedColumn columns column.name ≠ .null →
                (storedColumn columns column.name).equals (storedColumn others column.name) = false ∧
                (column.kind.isEncoded = false → ∃ u v,
                  column.load (storedColumn columns column.name) = .ok u ∧
                  column.load (storedColumn others column.name) = .ok v ∧ u.equals v = false))) ∧
        (column.kind.isEncoded = false → ∀ attr value, model.attributeColumn? attr = some column →
          value ≠ .null →
            (∀ handles after, course.db.run (fun env => Scope.findAll env model.name attr value) =
              (.ok handles, after) → handles.length ≤ 1) ∧
            ∀ name, (course.db.run fun env => Scope.findOne env model.name attr value).1 ≠
              .error (.multipleResults name)) := by
  intro course scope hscope model hmodel column hcolumn hunique
  have h : course.Intact db.registry terms := hfresh.intact hmeets
  have hopened := h.opened scope hscope
  have hconsistent : course.db.environment.registry.Consistent := h.registry_consistent hfresh.consistent
  have hcounted := h.counted hfresh.counted
  have hmodel' := h.mem_models hmodel
  constructor
  · intro a b row other hne ha hb
    have hrows : ({ scope with supply := course.db.supply } : Scope).SoundRows course.db.environment
        course.deleted := hopened.rows
    exact hrows.distinct hconsistent hcounted hmodel' hcolumn hunique hne ha hb
  · intro hkind attr value hattr hpresent
    constructor
    · intro handles after hrun
      have hends := hopened.findAll_le_one hconsistent hcounted hmodel' hcolumn hunique hkind hattr
        hpresent
      rcases Database.run_cases hscope (fun env => Scope.findAll env model.name attr value) hends with
        ⟨_, _, hdone, hle⟩ | ⟨_, _, hfailed, -⟩
      · cases hdone.symm.trans hrun
        exact hle
      · cases hfailed.symm.trans hrun
    · intro name hrun
      -- The failure would be that of the search in the open scope.
      cases hfound : (Scope.findOne course.db.environment model.name attr value).run
          { scope with supply := course.db.supply } with
      | error error last =>
          rw [Database.run_of_error hscope hfound] at hrun
          cases hrun
          exact hopened.findOne_not_multiple hconsistent hcounted hmodel' hcolumn hunique hkind hattr
            hpresent hfound
      | ok found last =>
          rw [Database.run_of_ok hscope hfound] at hrun
          cases hrun

/-! ## Notes with codes and tags -/

/-- Notes, no two of which have the same code or the same tags. -/
def taggedNotes : Database := .inMemory [
  .register (.declaration {
    name := "Note", tableName := some "notes", relatedName := some "notes"
    overrides := [
      ("code", .typed (.column { kind := .text, unique := true })),
      ("tags", .typed (.column { kind := .container .set, unique := true }))] })]

theorem taggedNotes_fresh : taggedNotes.Fresh := by
  refine Database.fresh_inMemory ?_ (by decide +kernel)
  simp [Registry.Call.Admissible, Candidate.Admissible, Blueprint.Composed.base]

/-- Two notes get tags and codes, and are committed. -/
def notesAreTagged : List Event := [
  .createSchema, .openScope,
  .deed (.act (.create "Note")), .deed (.act (.assign 0 "code" (.text "a"))),
  .deed (.act (.assign 0 "tags" (.set [.integer 1, .integer 2]))),
  .deed (.act (.create "Note")), .deed (.act (.assign 1 "code" (.text "b"))),
  .deed (.act (.assign 1 "tags" (.set [.integer 2, .integer 1]))), .commit, .openScope]

/-- No two of the notes have the same code, and looking for the only one does not find several. -/
theorem unique_columns_hold_distinct_codes :
    let course := notesAreTagged.foldl Course.step { db := taggedNotes }
    (∃ scope, course.db.scope = some scope ∧ ∃ row other columns others,
      scope.visibleRow course.db.environment "notes" 1 = .ok (some row) ∧
      scope.visibleRow course.db.environment "notes" 2 = .ok (some other) ∧
      row.Holds columns ∧ other.Holds others ∧
      (storedColumn columns "code").equals (storedColumn others "code") = false) ∧
    (course.db.run fun env => Scope.findOne env "Note" "code" (.text "a")).1 ≠
      .error (.multipleResults "Note") := by
  intro course
  have hmeets : Course.Meets { grounded := True, undeleted := False } { db := taggedNotes } notesAreTagged :=
    Course.meets_of_brings_nothing (by simp [notesAreTagged]) False.elim _
  obtain ⟨note, hnote, htable, hname, code, hcode, hcodeName, hunique, hplain, hattr⟩ :
      ∃ note ∈ taggedNotes.registry.models, note.tableName = "notes" ∧ note.name = "Note" ∧
        ∃ column ∈ note.columns, column.name = "code" ∧ column.unique = true ∧
          column.kind.isEncoded = false ∧ note.attributeColumn? "code" = some column :=
    ⟨_, List.mem_cons_self, rfl, rfl, _, List.mem_of_getElem? (show _ = some _ from (rfl : _[2]? = _)),
      rfl, rfl, rfl, rfl⟩
  obtain ⟨scope, hscope, ⟨row, hrow, columns, hcolumns, hpresent⟩, other, hother, -⟩ :
      ∃ scope ∈ course.db.scope,
        (∃ row ∈ (scope.visibleRow course.db.environment "notes" 1).toOption.join,
          ∃ columns ∈ (decodeRow row.data).toOption, (storedColumn columns "code").isNull = false) ∧
        ∃ other ∈ (scope.visibleRow course.db.environment "notes" 2).toOption.join, True := by
    decide +kernel
  have hmain := unique_columns_hold_distinct_values taggedNotes_fresh hmeets
  -- From here on the course is not computed any more.
  have hcourse : notesAreTagged.foldl Course.step { db := taggedNotes } = course := rfl
  simp only [hcourse] at hmain
  clear_value course
  obtain ⟨hrows, hfound⟩ := hmain scope hscope note hnote code hcode hunique
  rw [htable, hcodeName] at hrows
  rw [hname] at hfound
  obtain ⟨_, others, hholds, hothers, hdistinct⟩ := hrows 1 2 row other (by decide)
    (join_toOption_eq_some.1 hrow) (join_toOption_eq_some.1 hother)
  obtain rfl := hholds.of_decodeRow (toOption_eq_some.1 hcolumns)
  refine ⟨⟨scope, hscope, row, other, columns, others, join_toOption_eq_some.1 hrow,
    join_toOption_eq_some.1 hother, hholds, hothers, (hdistinct ?_).1⟩, ?_⟩
  · intro hnull
    rw [hnull] at hpresent
    cases hpresent
  · exact (hfound hplain "code" (.text "a") hattr (by simp)).2 "Note"

/-- Equal sets may stand in several rows of a unique column, and then the only record is not found. -/
theorem equal_sets_in_unique_column :
    let course := notesAreTagged.foldl Course.step { db := taggedNotes }
    (∃ note ∈ taggedNotes.registry.models, note.name = "Note" ∧
      ∃ column ∈ note.columns, column.name = "tags" ∧ column.unique = true ∧
        ∃ stored ∈ course.cell? "notes" 1 "tags", ∃ other ∈ course.cell? "notes" 2 "tags",
        ∃ u ∈ (column.load stored).toOption, ∃ v ∈ (column.load other).toOption, u.equals v = true) ∧
    (course.db.run fun env =>
      Scope.findOne env "Note" "tags" (.set [.integer 1, .integer 2])).1 =
        .error (.multipleResults "Note") := by
  decide +kernel

end RecordStore
