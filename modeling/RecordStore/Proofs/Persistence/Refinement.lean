import RecordStore.Proofs.Persistence.Commits
import RecordStore.Proofs.Registry.Calls

/-!
# Runs refine their journals

`Run.Sound` holds of every run that starts over a storage without rows: one step keeps it
(`Run.Sound.step`), and so do all steps together (`Run.Sound.foldl_step`).  `rows_hold_last_commits`
says what follows for those who use the database: rows are read as they were last committed.
-/

namespace RecordStore

namespace Run

variable {registry : Registry} {clock : Supply} {run : Run}

/-- What an act leaves as it is: all but the open scope. -/
structure Kept (before after : Run) : Prop where
  registry : after.db.registry = before.db.registry
  storage : after.db.storage = before.db.storage
  values : after.journal.committedValues = before.journal.committedValues
  inserts : after.journal.committedInserts = before.journal.committedInserts
  isSome : after.db.scope.isSome = before.db.scope.isSome

theorem noteInserts_committed (journal : Journal) (before after : Database) :
    (journal.noteInserts before after).committedValues = journal.committedValues ∧
      (journal.noteInserts before after).committedInserts = journal.committedInserts ∧
      (journal.noteInserts before after).assigned = journal.assigned := by
  unfold Journal.noteInserts
  cases before.scope with
  | none => exact ⟨rfl, rfl, rfl⟩
  | some old =>
      cases after.scope with
      | none => exact ⟨rfl, rfl, rfl⟩
      | some new => exact ⟨rfl, rfl, rfl⟩

theorem noteAct_committed (journal : Journal) (act : Act) :
    (journal.noteAct act).committedValues = journal.committedValues ∧
      (journal.noteAct act).committedInserts = journal.committedInserts := by
  cases act with
  | assign handle attr value => exact ⟨rfl, rfl⟩
  | _ => exact ⟨rfl, rfl⟩

theorem act_flush_assigned (run : Run) :
    (run.act .flush).journal.assigned = run.journal.assigned := by
  cases hscope : run.db.scope with
  | none => rw [act_of_none hscope]
  | some scope =>
      cases hrun : (Act.flush.perform run.db.environment).run
        { scope with supply := run.db.supply } with
      | ok _ after =>
          rw [act_of_ok hscope hrun]
          exact (noteInserts_committed run.journal run.db (run.db.resume after)).2.2
      | error error after =>
          rw [act_of_error hscope hrun]
          exact (noteInserts_committed run.journal run.db (run.db.resume after)).2.2

theorem act_kept (run : Run) (act : Act) : run.Kept (run.act act) := by
  cases hscope : run.db.scope with
  | none =>
      rw [act_of_none hscope]
      exact ⟨rfl, rfl, rfl, rfl, rfl⟩
  | some scope =>
      cases hrun : (act.perform run.db.environment).run { scope with supply := run.db.supply } with
      | ok _ after =>
          rw [act_of_ok hscope hrun]
          have hinserts := noteInserts_committed (run.journal.noteAct act) run.db
            (run.db.resume after)
          have hact := noteAct_committed run.journal act
          refine ⟨rfl, rfl, hinserts.1.trans hact.1, hinserts.2.1.trans hact.2, ?_⟩
          rw [hscope]
          rfl
      | error error after =>
          rw [act_of_error hscope hrun]
          have hinserts := noteInserts_committed run.journal run.db (run.db.resume after)
          refine ⟨rfl, rfl, hinserts.1, hinserts.2.1, ?_⟩
          rw [hscope]
          rfl

end Run

/-- Only what was committed matters for the rows of the storage. -/
theorem Journal.Matches.of_committed {journal other : Journal} {registry : Registry}
    {clock : Supply} {storage : Storage} (h : journal.Matches registry clock storage)
    (hvalues : other.committedValues = journal.committedValues)
    (hinserts : other.committedInserts = journal.committedInserts) :
    other.Matches registry clock storage := by
  have hvalue : ∀ name id column, other.value? name id column = journal.value? name id column := by
    intro name id column
    unfold Journal.value?
    rw [hvalues]
  have hinserted : other.Inserts = journal.Inserts := by
    unfold Journal.Inserts
    rw [hinserts]
  refine ⟨h.fits, h.numbered, h.positive, ?_, ?_⟩
  · intro model hmodel id row columns hrow hholds column hdata
    unfold Journal.Accounts
    rw [hvalue, hinserted]
    exact h.accounts model hmodel id row columns hrow hholds column hdata
  · intro model hmodel id column value hfound
    rw [hvalue] at hfound
    exact h.given model hmodel id column value hfound

namespace Run

variable {registry : Registry} {clock : Supply} {run : Run}

/-! ## What holds of every run -/

/-- What holds of a run at any time. -/
structure Sound (registry : Registry) (clock : Supply) (run : Run) : Prop where
  registry_eq : run.db.registry = registry
  supply : run.db.supply = { clock with drawn := run.db.supply.drawn }
  stored : run.journal.Matches registry clock run.db.storage
  opened : run.OpenSound clock

theorem sound_start {db : Database} (hscope : db.scope = none)
    (hempty : ∀ table number row, db.storage.row? table number ≠ .ok (some row)) :
    ({ db } : Run).Sound db.registry db.supply where
  registry_eq := rfl
  supply := rfl
  stored := Journal.matches_empty hempty
  opened := by
    intro scope hopen
    rw [hscope] at hopen
    cases hopen

theorem Sound.ended (h : run.Sound registry clock) {after : Database}
    (hsame : after.registry = run.db.registry) (hstorage : after.storage = run.db.storage)
    (hsupply : after.supply = { clock with drawn := after.supply.drawn })
    (hclosed : after.scope = none) :
    ({ db := after, journal := run.journal.forget } : Run).Sound registry clock := by
  refine ⟨hsame.trans h.registry_eq, hsupply, ?_, ?_⟩
  · show run.journal.forget.Matches registry clock after.storage
    rw [hstorage]
    exact h.stored.of_committed rfl rfl
  · intro scope hscope
    change after.scope = some scope at hscope
    rw [hclosed] at hscope
    cases hscope

variable (hregistry : registry.Consistent)
  (hcount : ∀ model ∈ registry.models, model.columns.length < 4294967296)

include hregistry hcount

theorem Sound.act (h : run.Sound registry clock) (act : Act) :
    (run.act act).Sound registry clock := by
  cases h.registry_eq
  have hkept := run.act_kept act
  have hopened := h.opened.act hregistry hcount act
  refine ⟨hkept.registry, ?_, ?_, hopened⟩
  -- The supply is that of the open scope, or nothing was done.
  · cases hscope : (run.act act).db.scope with
    | some scope => exact (hopened scope hscope).supply
    | none =>
        have hnone : run.db.scope = none := by
          have hsome := hkept.isSome
          rw [hscope] at hsome
          exact Option.isNone_iff_eq_none.1 (by simpa using hsome.symm)
        rw [act_of_none hnone]
        exact h.supply
  · rw [hkept.storage]
    exact h.stored.of_committed hkept.values hkept.inserts

/-- A commit that succeeds has written a flushed scope. -/
theorem Sound.written (h : run.Sound registry clock) {after : Database}
    (hcommit : run.db.commit = (.ok (), after)) :
    ∃ flushed, (run.act .flush).db.scope = some flushed ∧
      run.committedJournal = (run.act .flush).journal.settle flushed ∧
      (run.act .flush).journal.Written run.db.environment clock flushed after.storage ∧
      after.scope = none := by
  rcases run.db.commit_cases with ⟨_, _, hfailed, -⟩ |
    ⟨scope, flushed, written, hdone, hclosed, hscope, hflush, -, -, happly⟩
  · rw [hcommit] at hfailed
    cases hfailed
  · rw [hcommit] at hdone
    cases hdone
    cases h.registry_eq
    have hact : run.act .flush = _ := act_of_ok hscope hflush
    have hconsistent : run.db.environment.registry.Consistent := hregistry
    -- The commit flushes the scope just as the act of flushing does.
    have hends := Scope.flush_ends hconsistent hcount
      (Journal.soundReady_during (h.opened scope hscope))
    refine ⟨flushed, ?_, ?_, ⟨?_, (hends.of_ok hflush).2, Scope.writtenTo_of_apply happly⟩, hclosed⟩
    · rw [hact]
      rfl
    · unfold committedJournal
      rw [hact]
      rfl
    · have hsound := (h.act hregistry hcount .flush).opened flushed (by rw [hact]; rfl)
      rw [hact] at hsound ⊢
      exact hsound

theorem Sound.commit (h : run.Sound registry clock) : (run.step .commit).Sound registry clock := by
  have hflushed := h.act hregistry hcount .flush
  -- The supply is where the flush has left it, however the commit ends.
  have hframe := run.db.commit_frame
  have hflush : (run.act .flush).db = (run.db.run Scope.flush).2 := run.act_db .flush
  rw [← hflush] at hframe
  have hsupply : run.db.commit.2.supply = { clock with drawn := run.db.commit.2.supply.drawn } := by
    rw [hframe.2]
    exact hflushed.supply
  unfold Run.step
  cases hcommit : run.db.commit with
  | mk result after =>
      rw [hcommit] at hframe hsupply
      cases result with
      | error error =>
          rcases run.db.commit_cases with
            ⟨_, failed, hfailed, hstorage, hclosed⟩ | ⟨_, _, _, hdone, -⟩
          · rw [hcommit] at hfailed
            cases hfailed
            exact h.ended hframe.1 hstorage hsupply hclosed
          · rw [hcommit] at hdone
            cases hdone
      | ok _ =>
          rcases h.written hregistry hcount hcommit with ⟨flushed, -, hjournal, hwritten, hclosed⟩
          cases h.registry_eq
          have hmatches := hflushed.stored
          rw [(run.act_kept .flush).storage] at hmatches
          refine ⟨hframe.1, hsupply, ?_, ?_⟩
          · show run.committedJournal.Matches run.db.registry clock after.storage
            rw [hjournal]
            exact hwritten.settle hmatches hregistry
          · intro scope hscope
            change after.scope = some scope at hscope
            rw [hclosed] at hscope
            cases hscope

theorem Sound.step (h : run.Sound registry clock) (step : Step) :
    (run.step step).Sound registry clock := by
  cases step with
  | openScope =>
      unfold Run.step
      cases hopen : run.db.openScope with
      | error error => exact h
      | ok opened =>
          rcases Database.openScope_eq_ok.1 hopen with ⟨-, -, rfl⟩
          cases h.registry_eq
          have hmatches : run.journal.forget.Matches run.db.registry clock run.db.storage :=
            h.stored.of_committed rfl rfl
          refine ⟨rfl, h.supply, hmatches, ?_⟩
          intro scope hscope
          cases hscope
          exact hmatches.sound_fresh h.supply rfl
  | act act => exact h.act hregistry hcount act
  | commit => exact h.commit hregistry hcount
  | rollback => exact h.ended rfl rfl h.supply rfl

theorem Sound.foldl_step (h : run.Sound registry clock) (steps : List Step) :
    (steps.foldl Run.step run).Sound registry clock := by
  -- Every step starts from another run, so the run is generalized.
  induction steps generalizing run with
  | nil => exact h
  | cons step rest ih => exact ih (h.step hregistry hcount step)

/-! ## What is read -/

omit hcount in
/-- A record of a stored row reads, in every data column that was not assigned in the open scope,
what the journal accounts for. -/
theorem Sound.reads (h : run.Sound registry clock) {scope : Scope}
    (hscope : run.db.scope = some scope)
    {handle : Handle} {entry : Entry} (hentry : scope.entries[handle]? = some entry)
    (hstate : entry.state = .persistent) {id : Int64} (hid : entry.record.id = some id)
    {row : StoredRow}
    (hrow : run.db.storage.row? entry.record.model.tableName id.toUInt64 = .ok (some row))
    {column : Column} (hdata : entry.record.model.DataColumn column)
    (hunassigned : ∀ value, ((handle, column.name), value) ∉ run.journal.assigned) :
    run.journal.ReadsAs clock entry.record id column := by
  cases h.registry_eq
  have hsound := h.opened scope hscope
  have hmodel := (hsound.entries handle entry hentry).registered
  have hnone : Entries.find? (handle, column.name) run.journal.assigned = none :=
    Entries.find?_eq_none_of_not_mem hunassigned
  have hmatches :
      run.journal.Matches run.db.environment.registry clock run.db.environment.storage :=
    h.stored
  rcases hmatches.unassigned_column hregistry hsound hentry hstate hid hrow hdata hnone with
    ⟨_, _, stored, value, -, -, hstored, -, hload, hget⟩
  exact ⟨_, value, h.stored.accounts _ hmodel id row stored hrow hstored column hdata, hload, hget⟩

omit hcount in
/-- A stored row is found by its key in a new scope exactly if a record can be made of it. -/
theorem Sound.found (h : run.Sound registry clock) (hscope : run.db.scope = none) {model : Model}
    (hmodel : model ∈ registry.models) {id : Int64} {row : StoredRow}
    (hrow : run.db.storage.row? model.tableName id.toUInt64 = .ok (some row)) :
    ∃ opened, run.db.openScope = .ok opened ∧
      ((∃ handle after, opened.run (fun env => Scope.find env model.name id) = (.ok handle, after)) ↔
        model.CanLoad row) ∧
      ∀ handle after, opened.run (fun env => Scope.find env model.name id) = (.ok handle, after) →
        ∃ scope entry, after.scope = some scope ∧ scope.entries[handle]? = some entry ∧
          entry.record.model = model ∧
          ∀ column, model.DataColumn column → run.journal.ReadsAs clock entry.record id column := by
  cases h.registry_eq
  have hconsistent : run.db.environment.registry.Consistent := hregistry
  have hmatches : run.journal.forget.Matches run.db.environment.registry clock
      run.db.environment.storage := h.stored.of_committed rfl rfl
  have hfresh := hmatches.sound_fresh h.supply rfl
  have hready : Scope.SoundReady run.db.environment (run.journal.forget.history clock)
      { supply := run.db.supply } := by
    refine ⟨hfresh, ?_⟩
    intro handle entry hentry
    cases hentry
  have hends := Scope.find_visible hconsistent hready hmodel
    (h.stored.positive model hmodel id row hrow) hrow rfl
  let opened : Database := { run.db with scope := some { supply := run.db.supply } }
  have hopened : opened.scope = some { supply := run.db.supply } := rfl
  refine ⟨opened, Database.openScope_of_row hscope hrow, ?_⟩
  rcases opened.run_cases hopened (Scope.find · model.name id) hends with
    ⟨handle, after, hdone, hcan, hafter, -, entry, hentry, hstate, hsame, hid, -⟩ |
    ⟨error, after, hfailed, hcannot⟩
  · refine ⟨⟨fun _ => hcan, fun _ => ⟨handle, _, hdone⟩⟩, ?_⟩
    intro other found hfound
    rw [hdone] at hfound
    cases hfound
    refine ⟨after, entry, rfl, hentry, hsame, ?_⟩
    intro column hdata
    rw [← hsame] at hrow hdata
    -- Nothing was assigned in the new scope.
    have hnone : Entries.find? (handle, column.name) run.journal.forget.assigned = none := rfl
    rcases hmatches.unassigned_column hconsistent hafter.1 hentry hstate hid hrow hdata hnone with
      ⟨_, _, stored, value, -, -, hstored, -, hload, hget⟩
    have hregistered := (hafter.1.entries handle entry hentry).registered
    exact ⟨_, value, h.stored.accounts _ hregistered id row stored hrow hstored column hdata,
      hload, hget⟩
  · have hnone : ∀ handle found,
        opened.run (Scope.find · model.name id) ≠ (.ok handle, found) := by
      intro handle found hfound
      cases hfailed.symm.trans hfound
    exact ⟨iff_of_false (fun ⟨handle, found, hfound⟩ => hnone handle found hfound) hcannot,
      fun handle found hfound => absurd hfound (hnone handle found)⟩

omit hcount in
/-- A record can be made of a stored row unless a value that was bound to a stored form in it cannot be
read. -/
theorem Sound.canLoad_iff (h : run.Sound registry clock) {model : Model} (hmodel : model ∈ registry.models)
    {id : Int64} {row : StoredRow}
    (hrow : run.db.storage.row? model.tableName id.toUInt64 = .ok (some row)) :
    ∃ columns, row.Holds columns ∧ (model.CanLoad row ↔ ∀ column ∈ model.columns, ∀ value,
      column.bind model.tableName value = .ok (storedColumn columns column.name) → value.Readable) := by
  obtain ⟨columns, hholds, hfits⟩ := h.stored.fits model hmodel _ row hrow
  obtain ⟨_, -, hcompiled⟩ := hregistry.mem_compiled hmodel
  exact ⟨columns, hholds, Model.canLoad_iff_bound hcompiled hholds hfits⟩

/-- A commit leaves the columns of stored rows that were not assigned as they are, bit for bit. -/
theorem Sound.unchanged (h : run.Sound registry clock) {model : Model}
    (hmodel : model ∈ registry.models) {id : Int64} {row new : StoredRow}
    (hrow : run.db.storage.row? model.tableName id.toUInt64 = .ok (some row))
    (hnew : (run.step .commit).db.storage.row? model.tableName id.toUInt64 = .ok (some new))
    {column : Column} (hdata : model.DataColumn column)
    (hunassigned : ¬run.Assigned model.name id column.name) :
    ∃ before after, row.Holds before ∧ new.Holds after ∧
      storedColumn after column.name = storedColumn before column.name := by
  unfold Run.step at hnew
  cases hcommit : run.db.commit with
  | mk result after =>
      rw [hcommit] at hnew
      cases result with
      | error error =>
          rcases run.db.commit_cases with ⟨_, failed, hfailed, hstorage, -⟩ | ⟨_, _, _, hdone, -⟩
          · rw [hcommit] at hfailed
            cases hfailed
            change after.storage.row? _ _ = _ at hnew
            rw [hstorage, hrow] at hnew
            cases hnew
            rcases h.stored.fits model hmodel _ row hrow with ⟨columns, hholds, -⟩
            exact ⟨columns, columns, hholds, hholds, rfl⟩
          · rw [hcommit] at hdone
            cases hdone
      | ok _ =>
          rcases h.written hregistry hcount hcommit with ⟨flushed, hflushed, -, hwritten, -⟩
          cases h.registry_eq
          have hmatches := (h.act hregistry hcount .flush).stored
          rw [(run.act_kept .flush).storage] at hmatches
          refine hwritten.unchanged_column hmatches hregistry hmodel hrow hnew hdata ?_
          intro handle value hassignedRow hmem
          rw [act_flush_assigned] at hmem
          exact hunassigned ⟨flushed, handle, value, hflushed, hassignedRow, hmem⟩

end Run

/-- Rows are read as they were last committed.  Take any models, a storage without rows, and any
steps: scopes that are opened, worked in, and committed or rolled back, with acts that succeed or
fail.  Then every stored row is found in a new scope unless a record cannot be made of it, which is so
exactly if a value that was bound to a stored form in it cannot be read.  In every scope the record of a
stored row holds, in all columns that are neither primary nor foreign keys and were not assigned in the
scope, what the journal accounts for: the loaded stored form of the last value assigned in a committed
scope, or else of the default as it was evaluated when the row was inserted.  A commit leaves the
stored forms of columns that were not assigned as they are.  (A row counts its columns in 32 bits.)
-/
theorem rows_hold_last_commits (calls : List Registry.Call)
    (hadmissible : ∀ call ∈ calls, call.Admissible) (db : Database)
    (hregistry : db.registry = calls.foldl Registry.after {})
    (hcount : ∀ model ∈ db.registry.models, model.columns.length < 4294967296)
    (hscope : db.scope = none)
    (hempty : ∀ table number row, db.storage.row? table number ≠ .ok (some row))
    (steps : List Step) :
    let run := steps.foldl Run.step { db }
    ∀ model ∈ db.registry.models, ∀ (id : Int64) (row : StoredRow),
      run.db.storage.row? model.tableName id.toUInt64 = .ok (some row) →
        (run.db.scope = none → ∃ opened, run.db.openScope = .ok opened ∧
          ((∃ handle after,
            opened.run (fun env => Scope.find env model.name id) = (.ok handle, after)) ↔
              model.CanLoad row) ∧
          ∀ handle after, opened.run (fun env => Scope.find env model.name id) = (.ok handle, after) →
            ∃ scope entry, after.scope = some scope ∧ scope.entries[handle]? = some entry ∧
              entry.record.model = model ∧
              ∀ column, model.DataColumn column →
                run.journal.ReadsAs db.supply entry.record id column) ∧
        (∃ columns, row.Holds columns ∧ (model.CanLoad row ↔ ∀ column ∈ model.columns, ∀ value,
          column.bind model.tableName value = .ok (storedColumn columns column.name) →
            value.Readable)) ∧
        (∀ (scope : Scope) (handle : Handle) (entry : Entry), run.db.scope = some scope →
          scope.entries[handle]? = some entry → entry.state = .persistent →
          entry.record.model = model → entry.record.id = some id →
          ∀ column, model.DataColumn column →
            (∀ value, ((handle, column.name), value) ∉ run.journal.assigned) →
              run.journal.ReadsAs db.supply entry.record id column) ∧
        (∀ new, (run.step .commit).db.storage.row? model.tableName id.toUInt64 = .ok (some new) →
          ∀ column, model.DataColumn column → ¬run.Assigned model.name id column.name →
            ∃ before after, row.Holds before ∧ new.Holds after ∧
              storedColumn after column.name = storedColumn before column.name) := by
  intro run model hmodel id row hrow
  have hconsistent : db.registry.Consistent := by
    rw [hregistry]
    exact Registry.consistent_empty.foldl_after hadmissible
  have h : run.Sound db.registry db.supply :=
    (Run.sound_start hscope hempty).foldl_step hconsistent hcount steps
  refine ⟨fun hclosed => h.found hconsistent hclosed hmodel hrow, h.canLoad_iff hconsistent hmodel hrow,
    ?_, ?_⟩
  · rintro scope handle entry hopen hentry hstate rfl hid column hdata hunassigned
    exact h.reads hconsistent hopen hentry hstate hid hrow hdata hunassigned
  · intro new hnew column hdata hunassigned
    exact h.unchanged hconsistent hcount hmodel hrow hnew hdata hunassigned

/-- A title is assigned in a scope that is committed, and again in one that is rolled back; the
number of views is never assigned. -/
theorem rows_hold_last_commits_rolled_back :
    let calls : List Registry.Call := [
      .register (.declaration {
        name := "Note", tableName := some "notes", relatedName := some "notes"
        overrides := [
          ("title", .typed (.column { kind := .text })),
          ("views", .typed (.column {
            kind := .integer, default := some (.value (.integer 0)) }))] })]
    let db : Database := {
      registry := calls.foldl Registry.after {}
      storage := {
        address := { raw := "memory:", scheme := "memory", credentials := none, location := "" }
        settings := {}
        contents := some { catalog := .ofList [("notes", {
          table := "notes", model := "Note", columns := [], sequence := "", foreignKeys := []
          unique := [], indexes := [] })] } }
      host := { platform := "", architecture := "", timeZone := "" }
      supply := { identifier := fun _ => 0, instant := fun _ => default } }
    let steps : List Step := [
      .openScope, .act (.create "Note"), .act (.assign 0 "title" (.text "a")), .commit,
      .openScope, .act (.find "Note" 1), .act (.assign 0 "title" (.text "b")), .rollback]
    let run := steps.foldl Run.step { db }
    ∃ opened handle after scope entry, run.db.openScope = .ok opened ∧
      opened.run (fun env => Scope.find env "Note" 1) = (.ok handle, after) ∧
      after.scope = some scope ∧ scope.entries[handle]? = some entry ∧
      entry.record.get "title" = .ok (.text "a") ∧ entry.record.get "views" = .ok (.integer 0) := by
  intro calls db steps run
  let title : Column := { name := "title", field := "title", kind := .text }
  let views : Column := {
    name := "views", field := "views", kind := .integer, default := some (.value (.integer 0)) }
  have hadmissible : ∀ call ∈ calls, call.Admissible := by
    simp [calls, Registry.Call.Admissible, Candidate.Admissible, Blueprint.Composed.base]
  have hnote : ∃ note, db.registry.models = [note] ∧ note.name = "Note" ∧ note.tableName = "notes" ∧
      note.columns.length = 4 ∧ note.columns[2]? = some title ∧ note.columns[3]? = some views :=
    ⟨_, rfl, rfl, rfl, rfl, rfl, rfl⟩
  rcases hnote with ⟨note, hmodels, hname, htable, hlength, htitle, hviews⟩
  have hnoteMem : note ∈ db.registry.models := by
    rw [hmodels]
    exact List.mem_singleton_self note
  have hcount : ∀ model ∈ db.registry.models, model.columns.length < 4294967296 := by
    intro model hmem
    rw [hmodels] at hmem
    rw [List.mem_singleton.1 hmem, hlength]
    decide
  have hempty : ∀ table number row, db.storage.row? table number ≠ .ok (some row) := by
    intro table number row hrow
    cases hrow
  have hsome : ∀ found : Except Error (Option StoredRow),
      (∃ row ∈ found.toOption.join, ∀ model ∈ db.registry.models, model.CanLoad row) →
        ∃ row, found = .ok (some row) ∧ note.CanLoad row := by
    rintro (error | _ | row) ⟨other, hother, hcan⟩
    · cases hother
    · cases hother
    · cases hother
      exact ⟨row, rfl, hcan note hnoteMem⟩
  have htext : ∀ (found : Option Value) (s : String), found.bind Value.asText? = some s →
      found = some (.text s) := by
    rintro (_ | value) s hfound
    · cases hfound
    · cases value with
      | text s' =>
          cases hfound
          rfl
      | _ => cases hfound
  rcases hsome (run.db.storage.row? "notes" (1 : Int64).toUInt64) (by decide +kernel) with
    ⟨row, hrow, hcan⟩
  have hclosed : run.db.scope = none := rfl
  have hcommitted := htext (run.journal.value? "Note" 1 "title") "a" (by decide +kernel)
  have huntouched : run.journal.value? "Note" 1 "views" = none :=
    Option.isNone_iff_eq_none.1 (by decide +kernel)
  rw [← htable] at hrow
  have hmain := rows_hold_last_commits calls hadmissible db rfl hcount rfl hempty steps
    note hnoteMem 1 row
  -- From here on the run is not computed any more.
  have hrun : steps.foldl Run.step { db } = run := rfl
  rw [hrun] at hmain
  clear_value run
  obtain ⟨opened, hopen, hfound, hall⟩ := (hmain hrow).1 hclosed
  obtain ⟨handle, after, hfind⟩ := hfound.2 hcan
  obtain ⟨scope, entry, hscope, hentry, hsame, hreads⟩ := hall handle after hfind
  rw [hname] at hfind
  refine ⟨opened, handle, after, scope, entry, hopen, hfind, hscope, hentry, ?_, ?_⟩
  · rcases hreads title ⟨List.mem_of_getElem? htitle, rfl, rfl⟩ with
      ⟨stored, value, hstored, hload, hget⟩
    unfold Journal.Accounts at hstored
    rw [hsame, hname, hcommitted] at hstored
    cases hstored
    cases hload
    exact hget
  · rcases hreads views ⟨List.mem_of_getElem? hviews, rfl, rfl⟩ with
      ⟨stored, value, hstored, hload, hget⟩
    unfold Journal.Accounts at hstored
    rw [hsame, hname, huntouched] at hstored
    rcases hstored with ⟨n, -, hbind⟩
    cases hbind
    cases hload
    exact hget

end RecordStore
