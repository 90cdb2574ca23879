import RecordStore.Database
import RecordStore.Proofs.Scope.Staging

/-!
# Atomic commits

A commit that fails leaves the storage as it was.  A commit that succeeds makes the storage what the
scope saw after its last flush (`Scope.WrittenTo`).  The batch that is applied and the rows that are
read come from the same staged rows by different ways; `commit_is_atomic` says that they agree.
-/

namespace RecordStore

/-- A storage holds what a scope has seen: its rows are those visible in the scope, sequences stand
at the greater of what they were and what the scope has reached, and all else is as it was. -/
structure Scope.WrittenTo (scope : Scope) (env : Environment) (after : Storage) : Prop where
  row : ∀ (table : String) (id : UInt64), after.row? table id = scope.visibleRow env table id
  /-- What a scan finds. -/
  scanned : ∀ (table : String) (id : UInt64) (row : StoredRow),
    (∃ items, after.scan table = .ok items ∧ .ok (id, row) ∈ items) ↔
      scope.visibleRow env table id = .ok (some row)
  /-- A scan as a whole, unless a key staged for another table looks like one of the table. -/
  collected : ∀ table : String,
    (∀ other id row, scope.staged.find? (other, id) = some row → other ≠ table →
      Contents.ownsKey table (rowKey other id) = false) →
    (after.scan table >>= collectRows) = scope.visibleRows env table
  untouched : ∀ (table : String) (id : UInt64), scope.staged.find? (table, id) = none →
    after.row? table id = env.storage.row? table id
  sequences : ∀ sequence : String, after.sequenceValue sequence =
    (env.storage.sequenceValue sequence).map fun value =>
      max value ((scope.sequences.find? sequence).getD 0)
  catalog : ∀ table : String, after.table? table = env.storage.table? table
  tables : after.tables = env.storage.tables
  stamp : after.readStamp = env.storage.readStamp
  address : after.address = env.storage.address
  settings : after.settings = env.storage.settings

namespace Scope

variable {scope : Scope} {env : Environment}

/-- What makes the contents of a storage those that a scope has seen over other contents. -/
structure WrittenOver (scope : Scope) (before after : Contents) : Prop where
  row : ∀ (table : String) (id : UInt64), after.row? table id =
    (scope.staged.find? (table, id)).getD (before.row? table id)
  /-- A key that is not that of a staged row holds what it held. -/
  key : ∀ key : Bytes, (∀ table id row, scope.staged.find? (table, id) = some row →
    key ≠ rowKey table id) → after.rows.find? key = before.rows.find? key
  sequences : ∀ sequence : String, after.sequenceValue sequence =
    max (before.sequenceValue sequence) ((scope.sequences.find? sequence).getD 0)
  catalog : after.catalog = before.catalog
  stamp : after.stamp = before.stamp

theorem writtenOver_batch (scope : Scope) (before : Contents) :
    scope.WrittenOver before (scope.batch.apply before) where
  row := scope.row?_batch_apply before
  key _ hkey := scope.find?_batch_apply before hkey
  sequences := scope.sequenceValue_batch_apply before
  catalog := (Batch.apply_frame scope.batch before).2.1
  stamp := (Batch.apply_frame scope.batch before).2.2

/-- A scope that has nothing to write has seen the contents as they are. -/
theorem writtenOver_same (hstaged : ∀ key, scope.staged.find? key = none)
    (hsequences : ∀ sequence, scope.sequences.find? sequence = none) (before : Contents) :
    scope.WrittenOver before before where
  row table id := by
    rw [hstaged]
    rfl
  key _ _ := rfl
  sequences sequence := by
    rw [hsequences]
    exact (Nat.max_zero _).symm
  catalog := rfl
  stamp := rfl

namespace WrittenOver

variable {before after : Contents}

/-- A key is malformed for a table afterwards exactly when it was before, unless a staged row of
another table has it. -/
theorem malformed_iff (h : scope.WrittenOver before after) {table : String}
    (hapart : ∀ other id row, scope.staged.find? (other, id) = some row → other ≠ table →
      Contents.ownsKey table (rowKey other id) = false) (fault : DataFault) :
    .error fault ∈ after.scan table ↔ .error fault ∈ before.scan table := by
  -- A malformed key of the table is not the key of any staged row, so it was not written.
  have hkey : ∀ key, Contents.ownsKey table key = true → (∀ id, key ≠ rowKey table id) →
      after.rows.find? key = before.rows.find? key := by
    intro key howned hother
    refine h.key key ?_
    rintro other id row hstaged rfl
    by_cases hsame : other = table
    · exact hother id (by rw [hsame])
    · rw [hapart other id row hstaged hsame] at howned
      cases howned
  rw [Contents.error_mem_scan_iff, Contents.error_mem_scan_iff]
  constructor
  · rintro ⟨hfault, key, row, hrow, howned, hother⟩
    exact ⟨hfault, key, row, (hkey key howned hother) ▸ hrow, howned, hother⟩
  · rintro ⟨hfault, key, row, hrow, howned, hother⟩
    exact ⟨hfault, key, row, (hkey key howned hother).symm ▸ hrow, howned, hother⟩

/-- The rows collected afterwards are those collected before with the staged rows laid over them. -/
theorem collectRows_scan (h : scope.WrittenOver before after) {table : String}
    (hapart : ∀ other id row, scope.staged.find? (other, id) = some row → other ≠ table →
      Contents.ownsKey table (rowKey other id) = false) :
    collectRows (after.scan table) =
      (collectRows (before.scan table)).map (scope.staged.toList.foldl (overlayRow table)) := by
  rcases collectRows_scan_cases before table with ⟨rows, hrows, hsound⟩ | ⟨hfault, herror⟩
  -- Both collections fail on malformed keys, which are there before exactly when they are after.
  · rcases collectRows_scan_cases after table with ⟨rows', hrows', -⟩ | ⟨hfault', -⟩
    · rw [hrows, hrows']
      refine congrArg _ (SortedMap.ext_find? ?_)
      intro id
      rw [find?_overlay, collectRows_scan_eq_ok hrows', collectRows_scan_eq_ok hrows, h.row]
    · exact absurd ((h.malformed_iff hapart _).1 hfault') (hsound _)
  · rcases collectRows_scan_cases after table with ⟨rows', -, hsound'⟩ | ⟨-, herror'⟩
    · exact absurd ((h.malformed_iff hapart _).2 hfault) (hsound' _)
    · rw [herror, herror']
      rfl

/-- What holds of the contents of storages holds of the storages. -/
theorem writtenTo (h : scope.WrittenOver before after) {storage : Storage}
    (hbefore : env.storage.read = .ok before) (hafter : storage.read = .ok after)
    (haddress : storage.address = env.storage.address)
    (hsettings : storage.settings = env.storage.settings) : scope.WrittenTo env storage where
  row table id := by
    rw [row?_of_read hafter, visibleRow_of_read hbefore, h.row]
  scanned table id row := by
    rw [visibleRow_of_read hbefore, ← h.row]
    unfold Storage.scan
    rw [hafter]
    constructor
    · rintro ⟨items, hitems, hmem⟩
      cases hitems
      exact congrArg _ (Contents.ok_mem_scan_iff.1 hmem)
    · intro hrow
      exact ⟨after.scan table, rfl, Contents.ok_mem_scan_iff.2 (Except.ok.inj hrow)⟩
  collected table hapart := by
    unfold visibleRows Storage.scan
    rw [hbefore, hafter]
    show collectRows (after.scan table) = _
    rw [h.collectRows_scan hapart]
    show _ = (collectRows (before.scan table) >>= fun rows => _)
    cases collectRows (before.scan table) with
    | error e => rfl
    | ok rows => rfl
  untouched table id hstaged := by
    rw [row?_of_read hafter, row?_of_read hbefore, h.row, hstaged]
    rfl
  sequences sequence := by
    unfold Storage.sequenceValue
    rw [hbefore, hafter]
    exact congrArg _ (h.sequences sequence)
  catalog table := by
    unfold Storage.table?
    rw [hbefore, hafter]
    show Except.ok (after.catalog.find? table) = _
    rw [h.catalog]
    rfl
  tables := by
    unfold Storage.tables
    rw [hbefore, hafter]
    show Except.ok (after.catalog.toList.map (·.2)) = _
    rw [h.catalog]
    rfl
  stamp := by
    unfold Storage.readStamp
    rw [hbefore, hafter]
    exact congrArg _ h.stamp
  address := haddress
  settings := hsettings

end WrittenOver

/-- Where there is no storage, a scope that has nothing to write leaves none. -/
theorem writtenTo_of_unavailable (hstaged : ∀ key, scope.staged.find? key = none) {error : Error}
    (hread : env.storage.read = .error error) : scope.WrittenTo env env.storage where
  row table id := by
    unfold visibleRow
    rw [hstaged]
  scanned table id row := by
    unfold visibleRow Storage.scan Storage.row?
    rw [hstaged, hread]
    constructor
    · rintro ⟨items, hitems, -⟩
      cases hitems
    · intro h
      cases h
  collected table _ := by
    unfold visibleRows Storage.scan
    rw [hread]
    rfl
  untouched _ _ _ := rfl
  sequences sequence := by
    unfold Storage.sequenceValue
    rw [hread]
    rfl
  catalog _ := rfl
  tables := rfl
  stamp := rfl
  address := rfl
  settings := rfl

/-- A storage to which the batch of a scope was applied holds what the scope has seen. -/
theorem writtenTo_of_apply {storage : Storage} (h : env.storage.apply scope.batch = .ok storage) :
    scope.WrittenTo env storage := by
  unfold Storage.apply at h
  by_cases hempty : scope.batch.isEmpty = true
  · rw [if_pos hempty] at h
    cases h
    rcases of_batch_isEmpty hempty with ⟨hstaged, hsequences⟩
    -- An empty batch is not written, whether or not there is a storage to write it to.
    cases hread : env.storage.read with
    | error e => exact writtenTo_of_unavailable hstaged hread
    | ok contents =>
        exact (writtenOver_same hstaged hsequences contents).writtenTo hread hread rfl rfl
  · rw [if_neg hempty] at h
    unfold Storage.change at h
    rcases bind_eq_ok.1 h with ⟨contents, hread, h⟩
    cases pure_eq_ok.1 h
    refine (scope.writtenOver_batch contents).writtenTo hread ?_ rfl rfl
    -- A storage that holds something exists.
    unfold Storage.read Storage.exists?
    rw [if_pos (by simp)]
    rfl

/-- A sequence is not behind the scope that was written, and not behind where it was. -/
theorem WrittenTo.sequenceValue_le {storage : Storage} (h : scope.WrittenTo env storage)
    {sequence : String} {value : Nat} (hvalue : storage.sequenceValue sequence = .ok value) :
    ∃ old reached, env.storage.sequenceValue sequence = .ok old ∧
      scope.sequenceValue env sequence = .ok reached ∧ old ≤ value ∧ reached ≤ value := by
  rw [h.sequences] at hvalue
  cases hold : env.storage.sequenceValue sequence with
  | error error =>
      rw [hold] at hvalue
      cases hvalue
  | ok old =>
      rw [hold] at hvalue
      cases hvalue
      unfold sequenceValue
      cases hreached : scope.sequences.find? sequence with
      | none => exact ⟨old, old, rfl, hold, Nat.le_max_left _ _, Nat.le_max_left _ _⟩
      | some reached => exact ⟨old, reached, rfl, rfl, Nat.le_max_left _ _, Nat.le_max_right _ _⟩

/-- A commit hands over the batch of the flushed scope. -/
theorem commit_run_of_ok {flushed : Scope} (h : (flush env).run scope = .ok () flushed) :
    (commit env).run scope = .ok flushed.batch flushed := by
  simp only [commit, EStateM.run_bind, h]
  rfl

theorem commit_run_of_error {error : Error} {failed : Scope}
    (h : (flush env).run scope = .error error failed) :
    (commit env).run scope = .error error failed := by
  simp only [commit, EStateM.run_bind, h]

end Scope

namespace Database

/-- A batch is written as a whole, or the storage stays. -/
theorem write_cases (db : Database) (batch : Batch) :
    (∃ error used, db.write batch = (.error error, { db with used })) ∨
    (∃ storage used, db.write batch = (.ok (), { db with storage, used }) ∧
      db.storage.apply batch = .ok storage) := by
  unfold write
  by_cases hempty : batch.isEmpty = true
  · refine Or.inr ⟨db.storage, db.used, ?_, ?_⟩
    · rw [if_pos hempty]
    · unfold Storage.apply
      rw [if_pos hempty]
  · rw [if_neg hempty]
    unfold changeStorage
    cases happly : db.storage.apply batch with
    | error error =>
        simp only [happly]
        exact Or.inl ⟨error, true, rfl⟩
    | ok storage =>
        simp only [happly]
        exact Or.inr ⟨storage, true, rfl, rfl⟩

/-- How a commit goes: it fails and leaves the storage, or the flush succeeds and the batch is
applied. -/
theorem commit_cases (db : Database) :
    (∃ error after, db.commit = (.error error, after) ∧ after.storage = db.storage ∧
      after.scope = none) ∨
    (∃ scope flushed after, db.commit = (.ok (), after) ∧ after.scope = none ∧
      db.scope = some scope ∧
      (Scope.flush db.environment).run { scope with supply := db.supply } = .ok () flushed ∧
      after.registry = db.registry ∧ after.supply = flushed.supply ∧
      db.storage.apply flushed.batch = .ok after.storage) := by
  unfold commit run
  cases hscope : db.scope with
  | none => exact Or.inl ⟨_, _, rfl, rfl, rfl⟩
  | some scope =>
      cases hflush : (Scope.flush db.environment).run { scope with supply := db.supply } with
      | error error flushed =>
          simp only [Scope.commit_run_of_error hflush]
          exact Or.inl ⟨_, _, rfl, rfl, rfl⟩
      | ok _ flushed =>
          simp only [Scope.commit_run_of_ok hflush]
          rcases write_cases (db.resume flushed) flushed.batch with
            ⟨error, used, hwrite⟩ | ⟨storage, used, hwrite, happly⟩
          · rw [hwrite]
            exact Or.inl ⟨_, _, rfl, rfl, rfl⟩
          · rw [hwrite]
            exact Or.inr ⟨scope, flushed, _, rfl, rfl, rfl, hflush, rfl, rfl, happly⟩

/-- Ending a scope leaves the registry, and the supply where the flush has left it. -/
theorem commit_frame (db : Database) :
    db.commit.2.registry = db.registry ∧ db.commit.2.supply = (db.run Scope.flush).2.supply := by
  unfold commit run
  cases db.scope with
  | none => exact ⟨rfl, rfl⟩
  | some scope =>
      cases hflush : (Scope.flush db.environment).run { scope with supply := db.supply } with
      | error error flushed =>
          simp only [Scope.commit_run_of_error hflush, hflush]
          exact ⟨rfl, rfl⟩
      | ok _ flushed =>
          simp only [Scope.commit_run_of_ok hflush, hflush]
          rcases write_cases (db.resume flushed) flushed.batch with
            ⟨error, used, hwrite⟩ | ⟨storage, used, hwrite, -⟩
          · rw [hwrite]
            exact ⟨rfl, rfl⟩
          · rw [hwrite]
            exact ⟨rfl, rfl⟩

theorem run_storage {α : Type} (db : Database) (action : Environment → ScopeM α) :
    (db.run action).2.storage = db.storage := by
  unfold run
  cases db.scope with
  | none => rfl
  | some scope =>
      cases hrun : (action db.environment).run { scope with supply := db.supply } with
      | ok a after =>
          simp only [hrun]
          rfl
      | error error after =>
          simp only [hrun]
          rfl

/-- A scope is opened over a storage that exists, when none is open. -/
theorem openScope_eq_ok {db opened : Database} :
    db.openScope = .ok opened ↔ db.scope = none ∧ db.storage.exists? = true ∧
      opened = { db with scope := some { supply := db.supply } } := by
  unfold openScope
  cases hscope : db.scope with
  | some scope => simp
  | none =>
      by_cases hexists : db.storage.exists? = true
      · rw [if_neg (by simp), if_pos hexists]
        constructor
        · intro h
          cases h
          exact ⟨rfl, hexists, rfl⟩
        · rintro ⟨-, -, rfl⟩
          rfl
      · rw [if_neg (by simp), if_neg hexists]
        constructor
        · intro h
          cases h
        · rintro ⟨-, h, -⟩
          exact absurd h hexists

/-- A storage with a row exists. -/
theorem openScope_of_row {db : Database} (hclosed : db.scope = none) {table : String} {number : UInt64}
    {row : StoredRow} (hrow : db.storage.row? table number = .ok (some row)) :
    db.openScope = .ok { db with scope := some { supply := db.supply } } := by
  refine openScope_eq_ok.2 ⟨hclosed, ?_, rfl⟩
  unfold Storage.row? Storage.read at hrow
  by_cases hexists : db.storage.exists? = true
  · exact hexists
  · rw [if_neg hexists] at hrow
    cases hrow

/-- How a scope of its own goes, for a body that only works in the scope. -/
theorem transact_run (db : Database) {α : Type} (action : Environment → ScopeM α) :
    db.transact (m := Id) (fun opened => opened.run action) =
      match db.openScope with
      | .error error => (.error error, db)
      | .ok opened =>
          match opened.run action with
          | (.error error, ran) => (.error error, ran.rollback)
          | (.ok a, ran) => (ran.commit.1.map fun _ => a, ran.commit.2) := by
  unfold transact
  cases db.openScope with
  | error error => rfl
  | ok opened =>
      cases hrun : opened.run action with
      | mk result ran =>
          cases result with
          | error error =>
              simp only [hrun]
              rfl
          | ok a =>
              simp only [hrun]
              cases hcommit : ran.commit with
              | mk outcome written =>
                  cases outcome with
                  | error error =>
                      simp only [bind, hcommit]
                      rfl
                  | ok done =>
                      simp only [bind, hcommit]
                      rfl

/-- A scope of its own that fails, whatever the reason, leaves the storage as it was. -/
theorem transact_storage (db : Database) {α : Type} (action : Environment → ScopeM α)
    {error : Error} {after : Database}
    (h : db.transact (m := Id) (fun opened => opened.run action) = (.error error, after)) :
    after.storage = db.storage := by
  rw [transact_run] at h
  cases hopen : db.openScope with
  | error busy =>
      simp only [hopen] at h
      cases h
      rfl
  | ok opened =>
      have hopened : opened.storage = db.storage := by
        rcases openScope_eq_ok.1 hopen with ⟨-, -, rfl⟩
        rfl
      have hran := opened.run_storage action
      simp only [hopen] at h
      cases hrun : opened.run action with
      | mk result ran =>
          rw [hrun] at hran
          cases result with
          | error fault =>
              simp only [hrun] at h
              cases h
              exact hran.trans hopened
          | ok a =>
              simp only [hrun] at h
              rcases ran.commit_cases with ⟨_, failed, hcommit, hstorage, -⟩ | ⟨_, _, _, hcommit, -⟩
              · rw [hcommit] at h
                cases h
                exact hstorage.trans (hran.trans hopened)
              · rw [hcommit] at h
                cases h

end Database

/-- A commit that fails leaves the storage as it was.  A commit that succeeds has flushed the scope,
and the storage is what the flushed scope saw: the visible rows are found, one by one and by scans,
rows that were not staged are untouched, and sequences have not gone back.  Ending a scope without a
commit leaves the storage, and so does a body that fails in a scope of its own. -/
theorem commit_is_atomic (db : Database) :
    (∀ error after, db.commit = (.error error, after) → after.storage = db.storage) ∧
    (∀ after, db.commit = (.ok (), after) → ∃ scope flushed, db.scope = some scope ∧
      (Scope.flush db.environment).run { scope with supply := db.supply } = .ok () flushed ∧
      flushed.WrittenTo db.environment after.storage) ∧
    db.rollback.storage = db.storage ∧
    (∀ (α : Type) (action : Environment → ScopeM α),
      (∀ error after,
        db.transact (m := Id) (fun opened => opened.run action) = (.error error, after) →
        after.storage = db.storage) ∧
      (∀ opened error ran, db.openScope = .ok opened → opened.run action = (.error error, ran) →
        (db.transact (m := Id) (fun opened => opened.run action)).1 = .error error)) := by
  refine ⟨?_, ?_, rfl, ?_⟩
  · intro error after h
    rcases db.commit_cases with ⟨_, failed, hcommit, hstorage, -⟩ | ⟨_, _, _, hcommit, -⟩
    · rw [hcommit] at h
      cases h
      exact hstorage
    · rw [hcommit] at h
      cases h
  · intro after h
    rcases db.commit_cases with ⟨_, _, hcommit, -⟩ |
      ⟨scope, flushed, written, hcommit, -, hscope, hflush, -, -, happly⟩
    · rw [hcommit] at h
      cases h
    · rw [hcommit] at h
      cases h
      exact ⟨scope, flushed, hscope, hflush, Scope.writtenTo_of_apply happly⟩
  · intro α action
    refine ⟨fun error after => db.transact_storage action, ?_⟩
    intro opened error ran hopen hrun
    rw [db.transact_run, hopen]
    simp only [hrun]

/-- A row is deleted, another one put in its place, and a sequence has not come as far as it had. -/
theorem commit_is_atomic_overlaid :
    let row (byte : UInt8) : StoredRow := { data := [byte], createdAt := 0, updatedAt := 0 }
    let supply : Supply := { identifier := fun _ => 0, instant := fun _ => default }
    let db : Database := {
      storage := {
        address := { raw := "memory:", scheme := "memory", credentials := none, location := "" }
        settings := {}
        contents := some {
          rows := .ofList [(rowKey "t" 1, row 1), (rowKey "u" 1, row 3)]
          sequences := .ofList [("s", 7)] } }
      host := { platform := "", architecture := "", timeZone := "" }
      supply
      scope := some {
        staged := .ofList [(("t", 1), none), (("t", 2), some (row 2))]
        sequences := .ofList [("s", 3)]
        supply } }
    ∃ after, db.commit = (.ok (), after) ∧ after.storage.row? "t" 1 = .ok none ∧
      after.storage.row? "t" 2 = .ok (some (row 2)) ∧
      after.storage.row? "u" 1 = .ok (some (row 3)) ∧
      after.storage.sequenceValue "s" = .ok 7 := by
  intro row supply db
  have hcommit : db.commit = (.ok (), db.commit.2) := rfl
  rcases (commit_is_atomic db).2.1 _ hcommit with ⟨scope, flushed, hscope, hflush, hwritten⟩
  cases hscope
  cases hflush
  refine ⟨db.commit.2, hcommit, ?_, ?_, ?_, ?_⟩
  · rw [hwritten.row]
    rfl
  · rw [hwritten.row]
    rfl
  · rw [hwritten.untouched "u" 1 rfl]
    rfl
  · rw [hwritten.sequences]
    rfl

end RecordStore
