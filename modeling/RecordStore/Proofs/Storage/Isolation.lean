import RecordStore.Proofs.Storage.Schemas
import RecordStore.Proofs.Storage.Writing
import RecordStore.Registry

/-!
# Tables apart from each other

All rows stand in one map, and a table owns the keys that start with its name and a zero byte.  Names
may contain zero characters, so a key can belong to two tables when the name of one goes on after the
name of the other with such a character.  Otherwise (`Apart`) no key belongs to both.

A table is then a state of its own (`TableView`): its rows by their numbers and its entry in the
catalog.  Whatever is done to a storage acts on this state only through what is done to the table
(`StorageStep.onTable`), and a scan shows exactly its rows (`tables_are_apart`).
-/

namespace RecordStore

/-! ## Names -/

/-- Neither name is the other one followed by a zero character. -/
structure Apart (table other : String) : Prop where
  not_before : ¬ table.toList ++ ['\x00'] <+: other.toList
  not_after : ¬ other.toList ++ ['\x00'] <+: table.toList

theorem Apart.symm {table other : String} (h : Apart table other) : Apart other table :=
  ⟨h.not_after, h.not_before⟩

/-- Names without zero characters are apart. -/
theorem apart_of_not_mem {table other : String} (htable : '\x00' ∉ table.toList)
    (hother : '\x00' ∉ other.toList) : Apart table other where
  not_before h := hother (h.subset (by simp))
  not_after h := htable (h.subset (by simp))

theorem tableKey_eq_textBytes (table : String) : tableKey table = textBytes (table ++ "\x00") := by
  rw [tableKey, textBytes_eq_flatMap, textBytes_eq_flatMap, String.toList_append,
    List.flatMap_append]
  rfl

/-- The key of a table is at the front of another one only when the names are. -/
theorem eq_or_prefix_of_tableKey_prefix {table other : String}
    (h : tableKey table <+: tableKey other) :
    table = other ∨ table.toList ++ ['\x00'] <+: other.toList := by
  have hlast : tableKey other = textBytes other ++ [0] := rfl
  rw [hlast, List.prefix_concat_iff] at h
  rcases h with heq | hfront
  · exact Or.inl (tableKey_injective heq)
  · rw [tableKey_eq_textBytes, textBytes_prefix_iff, String.toList_append] at hfront
    exact Or.inr hfront

namespace Contents

/-- A key belongs to at most one of two tables that are apart. -/
theorem eq_of_ownsKey {table other : String} (hapart : Apart table other) {key : Bytes}
    (htable : ownsKey table key = true) (hother : ownsKey other key = true) : table = other := by
  unfold ownsKey at htable hother
  rw [List.isPrefixOf_iff_prefix] at htable hother
  rcases List.prefix_or_prefix_of_prefix htable hother with hfront | hfront
  · rcases eq_or_prefix_of_tableKey_prefix hfront with heq | hbefore
    · exact heq
    · exact absurd hbefore hapart.not_before
  · rcases eq_or_prefix_of_tableKey_prefix hfront with heq | hafter
    · exact heq.symm
    · exact absurd hafter hapart.not_after

end Contents

/-! ## A table by itself -/

/-- What a storage holds of one table. -/
@[ext]
structure TableView where
  rows : UInt64 → Option StoredRow
  schema : Option TableSchema

/-- The table after it was removed. -/
def TableView.vacant : TableView where
  rows _ := none
  schema := none

/-- The table after a row was written, or removed, in a table. -/
def TableView.setRow (table written : String) (id : UInt64) (row : Option StoredRow)
    (view : TableView) : TableView :=
  { view with
    rows := fun number => if written = table ∧ number = id then row else view.rows number }

/-- What the storage holds of a table. -/
def Contents.view (contents : Contents) (table : String) : TableView where
  rows := contents.row? table
  schema := contents.catalog.find? table

/-- The table that a write is for. -/
def RowWrite.table : RowWrite → String
  | put table _ _ => table
  | delete table _ => table

/-- What a write does to a table. -/
def RowWrite.onTable (table : String) (view : TableView) : RowWrite → TableView
  | put written id row => view.setRow table written id (some row)
  | delete written id => view.setRow table written id none

/-- A change of what a storage holds. -/
inductive StorageStep where
  | apply (batch : Batch)
  | defineTables (schemas : List TableSchema)
  | removeTables (tables : List String)

namespace StorageStep

/-- The storage after a step. -/
def run (storage : Storage) : StorageStep → Except Error Storage
  | apply batch => storage.apply batch
  | defineTables schemas => storage.defineTables schemas
  | removeTables tables => storage.removeTables tables

/-- The contents of a storage after a step. -/
def onContents (contents : Contents) : StorageStep → Contents
  | apply batch => batch.apply contents
  | defineTables schemas => schemas.foldl Contents.defineTable contents
  | removeTables tables => tables.foldl Contents.removeTable contents

/-- The tables that a step is about. -/
def tables : StorageStep → List String
  | apply batch => batch.writes.map (·.table)
  | defineTables schemas => schemas.map (·.table)
  | removeTables tables => tables

/-- What a step does to a table. -/
def onTable (table : String) (view : TableView) : StorageStep → TableView
  | apply batch => batch.writes.foldl (RowWrite.onTable table) view
  | defineTables schemas =>
      schemas.foldl
        (fun view schema =>
          { view with schema := if schema.table = table then some schema else view.schema })
        view
  | removeTables tables =>
      tables.foldl (fun view removed => if removed = table then .vacant else view) view

end StorageStep

/-! ## One change of contents -/

namespace Contents

variable (contents : Contents) (table : String)

theorem rows_setRow (written : String) (id : UInt64) (row : Option StoredRow) :
    ((contents.view table).setRow table written id row).rows = fun number =>
      if rowKey table number = rowKey written id then row else contents.row? table number := by
  funext number
  refine if_congr ?_ rfl rfl
  rw [rowKey_inj, eq_comm (a := table)]

theorem view_write (write : RowWrite) :
    (write.apply contents).view table = write.onTable table (contents.view table) := by
  cases write with
  | put written id row =>
      refine TableView.ext ?_ rfl
      refine Eq.trans ?_ (contents.rows_setRow table written id (some row)).symm
      exact funext fun number => SortedMap.find?_insert ..
  | delete written id =>
      refine TableView.ext ?_ rfl
      refine Eq.trans ?_ (contents.rows_setRow table written id none).symm
      exact funext fun number => SortedMap.find?_erase ..

theorem view_foldl_write (writes : List RowWrite) :
    (writes.foldl RowWrite.apply contents).view table =
      writes.foldl (RowWrite.onTable table) (contents.view table) := by
  induction writes generalizing contents with
  | nil => rfl
  | cons write rest ih =>
      rw [List.foldl_cons, List.foldl_cons, ih, view_write]

theorem view_apply (batch : Batch) :
    (batch.apply contents).view table =
      batch.writes.foldl (RowWrite.onTable table) (contents.view table) := by
  rw [← view_foldl_write]
  obtain ⟨hrows, hcatalog, -⟩ := batch.apply_frame contents
  obtain ⟨-, hwritten, -⟩ := RowWrite.foldl_frame batch.writes contents
  unfold view row?
  rw [hrows, hcatalog, hwritten]

theorem view_defineTable (schema : TableSchema) :
    (contents.defineTable schema).view table =
      { contents.view table with
        schema := if schema.table = table then some schema else contents.catalog.find? table } := by
  refine TableView.ext rfl ?_
  refine (SortedMap.find?_insert ..).trans ?_
  exact if_congr eq_comm rfl rfl

theorem view_foldl_defineTable (schemas : List TableSchema) :
    (schemas.foldl defineTable contents).view table =
      (StorageStep.defineTables schemas).onTable table (contents.view table) := by
  induction schemas generalizing contents with
  | nil => rfl
  | cons schema rest ih =>
      refine (ih (contents.defineTable schema)).trans ?_
      rw [view_defineTable]
      rfl

variable {contents table}

/-- Removing a table leaves another one alone when no key belongs to both. -/
theorem view_removeTable {removed : String} (hapart : removed = table ∨ Apart table removed) :
    (contents.removeTable removed).view table =
      if removed = table then .vacant else contents.view table := by
  by_cases hsame : removed = table
  · subst hsame
    rw [if_pos rfl]
    refine TableView.ext ?_ ?_
    · funext number
      exact row?_removeTable_self contents removed number
    · exact (catalog_removeTable contents removed removed).trans (if_pos rfl)
  · rw [if_neg hsame]
    refine TableView.ext ?_ ?_
    · funext number
      have hother : ownsKey removed (rowKey table number) = false := by
        refine Bool.eq_false_iff.2 fun howned => ?_
        exact hsame (eq_of_ownsKey (hapart.resolve_left hsame) (ownsKey_rowKey table number)
          howned).symm
      have hfilter : (contents.removeTable removed).row? table number =
          (contents.row? table number).filter fun _ => !ownsKey removed (rowKey table number) :=
        SortedMap.find?_filter ..
      refine hfilter.trans ?_
      cases hrow : contents.row? table number with
      | none => exact hrow.symm
      | some row => simp [Option.filter, hother, view, hrow]
    · exact (catalog_removeTable contents removed table).trans (if_neg fun heq => hsame heq.symm)

theorem view_foldl_removeTable {tables : List String}
    (hapart : ∀ removed ∈ tables, removed = table ∨ Apart table removed) :
    (tables.foldl removeTable contents).view table =
      (StorageStep.removeTables tables).onTable table (contents.view table) := by
  induction tables generalizing contents with
  | nil => rfl
  | cons removed rest ih =>
      refine (ih fun other hother => hapart other (List.mem_cons_of_mem _ hother)).trans ?_
      rw [view_removeTable (hapart removed List.mem_cons_self)]
      rfl

/-! ## Keys that appear -/

/-- A key that is there after a write was there before, or is that of the row that was written. -/
theorem key_of_write {key : Bytes} (write : RowWrite)
    (h : ((write.apply contents).rows.find? key).isSome) :
    (contents.rows.find? key).isSome ∨ ∃ id, key = rowKey write.table id := by
  cases write with
  | put written id row =>
      have hfind : ((RowWrite.put written id row).apply contents).rows.find? key =
          if key = rowKey written id then some row else contents.rows.find? key :=
        SortedMap.find?_insert ..
      by_cases hkey : key = rowKey written id
      · exact Or.inr ⟨id, hkey⟩
      · rw [hfind, if_neg hkey] at h
        exact Or.inl h
  | delete written id =>
      have hfind : ((RowWrite.delete written id).apply contents).rows.find? key =
          if key = rowKey written id then none else contents.rows.find? key :=
        SortedMap.find?_erase ..
      by_cases hkey : key = rowKey written id
      · exact Or.inr ⟨id, hkey⟩
      · rw [hfind, if_neg hkey] at h
        exact Or.inl h

theorem key_of_foldl_write {key : Bytes} (writes : List RowWrite)
    (h : ((writes.foldl RowWrite.apply contents).rows.find? key).isSome) :
    (contents.rows.find? key).isSome ∨ ∃ write ∈ writes, ∃ id, key = rowKey write.table id := by
  induction writes generalizing contents with
  | nil => exact Or.inl h
  | cons write rest ih =>
      rcases ih h with hbefore | ⟨later, hlater, hkey⟩
      · rcases key_of_write write hbefore with hstart | hkey
        · exact Or.inl hstart
        · exact Or.inr ⟨write, List.mem_cons_self, hkey⟩
      · exact Or.inr ⟨later, List.mem_cons_of_mem _ hlater, hkey⟩

theorem key_of_foldl_removeTable {key : Bytes} (tables : List String)
    (h : ((tables.foldl removeTable contents).rows.find? key).isSome) :
    (contents.rows.find? key).isSome := by
  induction tables generalizing contents with
  | nil => exact h
  | cons removed rest ih =>
      have hfilter : (contents.removeTable removed).rows.find? key =
          (contents.rows.find? key).filter fun _ => !ownsKey removed key :=
        SortedMap.find?_filter ..
      have hbefore := ih h
      rw [hfilter, Option.isSome_filter] at hbefore
      exact Option.isSome_of_any hbefore

end Contents

/-! ## Steps -/

namespace StorageStep

variable {storage : Storage} {contents : Contents} {table : String}

/-- A step on a storage that can be read succeeds. -/
theorem run_of_read (hread : storage.read = .ok contents) (step : StorageStep) :
    ∃ storage', step.run storage = .ok storage' ∧
      storage'.read = .ok (step.onContents contents) := by
  have hchange : ∀ f : Contents → Contents, ∃ storage', storage.change f = .ok storage' ∧
      storage'.read = .ok (f contents) := fun f =>
    ⟨_, Storage.change_eq_ok.2 ⟨contents, hread, rfl⟩, Storage.read_of_contents _ _⟩
  cases step with
  | apply batch =>
      by_cases hempty : batch.isEmpty = true
      · refine ⟨storage, if_pos hempty, ?_⟩
        -- An empty batch leaves the contents as they are.
        obtain ⟨hwrites, hsequences⟩ := Bool.and_eq_true_iff.1 hempty
        have hsame : batch.apply contents = contents := by
          unfold Batch.apply
          rw [List.isEmpty_iff.1 hwrites, List.isEmpty_iff.1 hsequences]
          rfl
        exact hread.trans (congrArg Except.ok hsame.symm)
      · obtain ⟨storage', hrun, hread'⟩ := hchange batch.apply
        exact ⟨storage', (if_neg hempty).trans hrun, hread'⟩
  | defineTables schemas => exact hchange _
  | removeTables tables => exact hchange _

/-- A step acts on a table only through what it does to this table. -/
theorem view_onContents (step : StorageStep)
    (hapart : ∀ other ∈ step.tables, other = table ∨ Apart table other) :
    (step.onContents contents).view table = step.onTable table (contents.view table) := by
  cases step with
  | apply batch => exact contents.view_apply table batch
  | defineTables schemas => exact contents.view_foldl_defineTable table schemas
  | removeTables tables => exact Contents.view_foldl_removeTable hapart

/-- A key that is there after a step was there before, or is that of a row of a table that the step is
about. -/
theorem key_of_onContents (step : StorageStep) {key : Bytes}
    (h : ((step.onContents contents).rows.find? key).isSome) :
    (contents.rows.find? key).isSome ∨ ∃ other ∈ step.tables, ∃ id, key = rowKey other id := by
  cases step with
  | apply batch =>
      unfold onContents at h
      rw [(batch.apply_frame contents).1] at h
      rcases Contents.key_of_foldl_write batch.writes h with hbefore | ⟨write, hwrite, hkey⟩
      · exact Or.inl hbefore
      · exact Or.inr ⟨write.table, List.mem_map_of_mem hwrite, hkey⟩
  | defineTables schemas =>
      unfold onContents at h
      rw [Contents.rows_foldl_defineTable] at h
      exact Or.inl h
  | removeTables tables => exact Or.inl (Contents.key_of_foldl_removeTable tables h)

/-- What a run of steps leaves of a table, and where its keys come from. -/
theorem run_steps (hread : storage.read = .ok contents) (steps : List StorageStep)
    (hapart : ∀ step ∈ steps, ∀ other ∈ step.tables, other = table ∨ Apart table other) :
    ∃ storage' contents', steps.foldlM run storage = .ok storage' ∧
      storage'.read = .ok contents' ∧
      contents'.view table = steps.foldl (onTable table) (contents.view table) ∧
      ∀ key, (contents'.rows.find? key).isSome → (contents.rows.find? key).isSome ∨
        ∃ other id, (other = table ∨ Apart table other) ∧ key = rowKey other id := by
  induction steps generalizing storage contents with
  | nil => exact ⟨storage, contents, rfl, hread, rfl, fun key hkey => Or.inl hkey⟩
  | cons step rest ih =>
      obtain ⟨next, hrun, hnext⟩ := run_of_read hread step
      obtain ⟨storage', contents', hrest, hread', hview, hkeys⟩ :=
        ih hnext fun later hlater => hapart later (List.mem_cons_of_mem _ hlater)
      have hstep := hapart step List.mem_cons_self
      refine ⟨storage', contents', ?_, hread', ?_, ?_⟩
      · rw [List.foldlM_cons, hrun]
        exact hrest
      · rw [hview, view_onContents step hstep]
        rfl
      · intro key hkey
        rcases hkeys key hkey with hbefore | hadded
        · rcases key_of_onContents step hbefore with hstart | ⟨other, hother, id, rfl⟩
          · exact Or.inl hstart
          · exact Or.inr ⟨other, id, hstep other hother, rfl⟩
        · exact Or.inr hadded

end StorageStep

/-! ## Scans and removal -/

namespace Contents

variable {contents : Contents} {table : String}

/-- The numbers that a scan shows are read from the keys that the table owns. -/
theorem numbers_scan (contents : Contents) (table : String) :
    (contents.scan table).filterMap (fun found => found.toOption.map (·.1)) =
      (contents.rows.toList.map (·.1)).filterMap fun key =>
        if ownsKey table key then rowIdOfKey? key (tableKey table).length else none := by
  unfold scan
  rw [List.filterMap_map, List.filterMap_map, List.filterMap_filter]
  refine List.filterMap_congr fun entry _ => ?_
  refine if_congr Iff.rfl ?_ rfl
  cases hid : rowIdOfKey? entry.1 (tableKey table).length with
  | none => simp [hid, Except.toOption]
  | some id => simp [hid, Except.toOption]

/-- A scan shows no number twice. -/
theorem nodup_scan (contents : Contents) (table : String) :
    ((contents.scan table).filterMap fun found => found.toOption.map (·.1)).Nodup := by
  rw [numbers_scan]
  refine List.Nodup.filterMap ?_ contents.rows.sorted.nodup_keys
  intro key other id hkey hother
  rw [Option.mem_def, Option.ite_none_right_eq_some] at hkey hother
  rw [eq_rowKey_of_rowIdOfKey? hkey.1 hkey.2, eq_rowKey_of_rowIdOfKey? hother.1 hother.2]

/-- What is left of a storage when exactly one table was removed. -/
structure Without (contents : Contents) (table : String) (left : Contents) : Prop where
  removed : left.view table = .vacant
  scanned : left.scan table = []
  others : ∀ other, other ≠ table → Apart table other →
    left.view other = contents.view other ∧ left.scan other = contents.scan other
  sequences : ∀ sequence, left.sequenceValue sequence =
    if (contents.catalog.find? table).any (fun schema => schema.sequence = sequence) then 0
    else contents.sequenceValue sequence
  stamp : left.stamp = contents.stamp

theorem without_removeTable (contents : Contents) (table : String) :
    contents.Without table (contents.removeTable table) := by
  have hrows : (contents.removeTable table).rows.toList =
      contents.rows.toList.filter fun entry => !ownsKey table entry.1 := rfl
  constructor
  case removed => rw [view_removeTable (Or.inl rfl), if_pos rfl]
  case scanned =>
    unfold scan
    rw [hrows, List.filter_filter, List.map_eq_nil_iff, List.filter_eq_nil_iff]
    intro entry _
    simp
  case others =>
    intro other hne hapart
    refine ⟨?_, ?_⟩
    · rw [view_removeTable (Or.inr hapart.symm), if_neg hne.symm]
    · unfold scan
      rw [hrows, List.filter_filter]
      refine congrArg (List.map _) (List.filter_congr fun entry _ => ?_)
      -- A key of the other table is not one of the table that is removed.
      cases hother : ownsKey other entry.1 with
      | false => rfl
      | true =>
          cases htable : ownsKey table entry.1 with
          | false => rfl
          | true => exact absurd (eq_of_ownsKey hapart htable hother).symm hne
  case sequences =>
    intro sequence
    unfold removeTable sequenceValue
    cases contents.catalog.find? table with
    | none => rfl
    | some schema =>
        simp only [SortedMap.find?_erase, Option.any_some, decide_eq_true_eq]
        by_cases hsame : sequence = schema.sequence
        · rw [if_pos hsame, if_pos hsame.symm]
          rfl
        · rw [if_neg hsame, if_neg fun heq => hsame heq.symm]
  case stamp => rfl

end Contents

/-- Whatever is done to a storage, the rows and the entry of a table are those that its own steps give,
provided that the names of all other tables are apart from its name.  A scan shows exactly these rows,
each once, and can only fail at a key that was there from the start and is that of no row of a table
that is apart.  Removing the table removes its rows, its entry and the sequence of its entry, and
nothing else. -/
theorem tables_are_apart {storage : Storage} {contents : Contents}
    (hread : storage.read = .ok contents) (table : String) (steps : List StorageStep)
    (hapart : ∀ step ∈ steps, ∀ other ∈ step.tables, other = table ∨ Apart table other) :
    ∃ storage' contents' found,
      steps.foldlM StorageStep.run storage = .ok storage' ∧ storage'.read = .ok contents' ∧
      storage'.scan table = .ok found ∧
      contents'.view table = steps.foldl (StorageStep.onTable table) (contents.view table) ∧
      (∀ id row, .ok (id, row) ∈ found ↔ (contents'.view table).rows id = some row) ∧
      (found.filterMap fun entry => entry.toOption.map (·.1)).Nodup ∧
      (∀ fault, .error fault ∈ found → ∃ key, (contents.rows.find? key).isSome ∧
        Contents.ownsKey table key = true ∧
        ∀ other id, other = table ∨ Apart table other → key ≠ rowKey other id) ∧
      ∃ left, storage'.removeTables [table] = .ok { storage' with contents := some left } ∧
        contents'.Without table left := by
  obtain ⟨storage', contents', hrun, hread', hview, hkeys⟩ :=
    StorageStep.run_steps hread steps hapart
  have hscan : storage'.scan table = .ok (contents'.scan table) := by
    unfold Storage.scan
    rw [hread']
    rfl
  refine ⟨storage', contents', contents'.scan table, hrun, hread', hscan, hview,
    fun id row => Contents.ok_mem_scan_iff, contents'.nodup_scan table, ?_,
    contents'.removeTable table, ?_, contents'.without_removeTable table⟩
  · intro fault hfault
    obtain ⟨-, key, row, hrow, howned, hother⟩ := Contents.error_mem_scan_iff.1 hfault
    -- A row of another table that is apart would not be owned by the table.
    have hforeign : ∀ other id, other = table ∨ Apart table other → key ≠ rowKey other id := by
      rintro other id (rfl | hothers) rfl
      · exact hother id rfl
      · obtain rfl := Contents.eq_of_ownsKey hothers howned (ownsKey_rowKey other id)
        exact hother id rfl
    refine ⟨key, ?_, howned, hforeign⟩
    rcases hkeys key (by rw [hrow]; rfl) with hstart | ⟨other, id, hothers, heq⟩
    · exact hstart
    · exact absurd heq (hforeign other id hothers)
  · unfold Storage.removeTables
    rw [Storage.change_eq_ok]
    exact ⟨contents', hread', rfl⟩

/-! ## Rounds and the rounds of a round -/

/-- A storage in memory that holds nothing. -/
def emptyMemory : Storage :=
  .atAddress { raw := "memory://", scheme := "memory", credentials := none, location := "" }

/-- A row of no columns. -/
def emptyRow : StoredRow where
  data := [0, 0, 0, 0]
  createdAt := 0
  updatedAt := 0

/-- Rows of the same number in two tables, one of which is removed. -/
def roundSteps : List StorageStep := [
  .apply { writes := [.put "round" 1 emptyRow, .put "rounds" 1 emptyRow] },
  .removeTables ["round"]]

/-- The rows of one table stay when the other is removed, though its name starts with the other. -/
theorem tables_are_apart_rounds :
    ∃ storage found, roundSteps.foldlM StorageStep.run emptyMemory = .ok storage ∧
      storage.scan "rounds" = .ok found ∧ .ok (1, emptyRow) ∈ found := by
  have hread : emptyMemory.read = .ok {} := rfl
  have hround : Apart "rounds" "round" := apart_of_not_mem (by decide) (by decide)
  have hapart : ∀ step ∈ roundSteps, ∀ other ∈ step.tables,
      other = "rounds" ∨ Apart "rounds" other := by
    intro step hstep other hother
    have hname : other = "round" ∨ other = "rounds" := by
      rcases List.mem_pair.1 hstep with rfl | rfl
      · exact List.mem_pair.1 hother
      · exact Or.inl (List.mem_singleton.1 hother)
    rcases hname with rfl | rfl
    · exact Or.inr hround
    · exact Or.inl rfl
  obtain ⟨storage, contents, found, hrun, -, hscan, hview, hfound, -⟩ :=
    tables_are_apart hread "rounds" roundSteps hapart
  refine ⟨storage, found, hrun, hscan, (hfound 1 emptyRow).2 ?_⟩
  rw [hview]
  decide +kernel

/-- Models whose tables have a zero character between their names. -/
def zeroNamed (name table : String) : Candidate :=
  .declaration { name, tableName := some table, relatedName := some table }

/-- Both tables are accepted, but a scan of the one fails at the row of the other, which is lost when
the one is removed. -/
theorem zero_character_mixes_tables :
    ((Registry.register {} (zeroNamed "Note" "a")).bind fun registered =>
      registered.1.register (zeroNamed "Card" "a\x00b")).isOk = true ∧
    let contents := Contents.putRow "a\x00b" 1 emptyRow {}
    contents.row? "a\x00b" 1 = some emptyRow ∧
      contents.scan "a" = [.error .malformedRowKey] ∧
      (contents.removeTable "a").row? "a\x00b" 1 = none := by
  decide +kernel

end RecordStore
