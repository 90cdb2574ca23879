import RecordStore.Proofs.Outcome
import RecordStore.Proofs.Storage.RowKeys
import RecordStore.Proofs.Storage.Writing
import RecordStore.Scope.Flush

/-!
# Staged rows

The staged rows of a scope are laid over the rows of the storage twice: one by one when rows are
read (`Scope.visibleRow`, `Scope.visibleRows`), and as a batch when the scope is committed
(`Scope.batch`). Both are changes of different keys, so both say the same of every row.
-/

namespace RecordStore

namespace Scope

/-! ## The batch of a scope -/

/-- The change that a staged row makes to the rows of a storage. -/
def stagedChange (staged : (String × UInt64) × Option StoredRow) : Bytes × Option StoredRow :=
  (rowKey staged.1.1 staged.1.2, staged.2)

theorem find?_stagedChange (staged : List ((String × UInt64) × Option StoredRow)) (table : String)
    (id : UInt64) :
    Entries.find? (rowKey table id) (staged.map stagedChange) =
      Entries.find? (table, id) staged := by
  induction staged with
  | nil => rfl
  | cons change rest ih =>
      rcases change with ⟨⟨other, number⟩, row⟩
      rw [List.map_cons, stagedChange, Entries.find?_cons, Entries.find?_cons, ih]
      by_cases hkey : (table, id) = (other, number)
      · cases hkey
        rw [if_pos rfl, if_pos rfl]
      · have hother : ¬rowKey table id = rowKey other number := by
          intro heq
          rcases rowKey_inj.1 heq with ⟨rfl, rfl⟩
          exact hkey rfl
        rw [if_neg hkey, if_neg hother]

theorem nodup_stagedChange {staged : List ((String × UInt64) × Option StoredRow)}
    (hdistinct : (staged.map (·.1)).Nodup) : ((staged.map stagedChange).map (·.1)).Nodup := by
  rw [List.map_map]
  have hkeys : (staged.map fun change => rowKey change.1.1 change.1.2) =
      (staged.map (·.1)).map fun key => rowKey key.1 key.2 := by
    rw [List.map_map]
    rfl
  show (staged.map fun change => rowKey change.1.1 change.1.2).Nodup
  rw [hkeys]
  refine hdistinct.map ?_
  intro a b heq
  rcases rowKey_inj.1 heq with ⟨htable, hid⟩
  exact Prod.ext htable hid

/-- Adding staged rows to a batch writes their changes, and nothing else. -/
theorem foldl_addStaged (staged : List ((String × UInt64) × Option StoredRow)) (batch : Batch)
    (contents : Contents) :
    (staged.foldl addStaged batch).sequences = batch.sequences ∧
      (staged.foldl addStaged batch).writes.length = batch.writes.length + staged.length ∧
      ((staged.foldl addStaged batch).writes.foldl RowWrite.apply contents).rows =
        (staged.map stagedChange).foldl SortedMap.layOver
          (batch.writes.foldl RowWrite.apply contents).rows := by
  -- The batch grows along the list, so it is generalized.
  induction staged generalizing batch with
  | nil => exact ⟨rfl, rfl, rfl⟩
  | cons change rest ih =>
      rcases ih (addStaged batch change) with ⟨hsequences, hlength, hrows⟩
      rw [List.foldl_cons, List.map_cons, List.foldl_cons, hsequences, hlength, hrows]
      rcases change with ⟨⟨table, id⟩, row | row⟩
      · refine ⟨rfl, ?_, ?_⟩
        · simp only [addStaged, Batch.delete, List.length_append, List.length_cons, List.length_nil]
          omega
        · simp only [addStaged, Batch.delete, List.foldl_append]
          rfl
      · refine ⟨rfl, ?_, ?_⟩
        · simp only [addStaged, Batch.put, List.length_append, List.length_cons, List.length_nil]
          omega
        · simp only [addStaged, Batch.put, List.foldl_append]
          rfl

theorem foldl_advance {entries : List (String × Nat)} (hdistinct : (entries.map (·.1)).Nodup)
    (batch : Batch) (hnew : ∀ entry ∈ entries, batch.sequences.find? entry.1 = none) :
    let advanced := entries.foldl (fun batch entry => batch.advance entry.1 entry.2) batch
    advanced.writes = batch.writes ∧ ∀ sequence, advanced.sequences.find? sequence =
      (Entries.find? sequence entries).or (batch.sequences.find? sequence) := by
  induction entries generalizing batch with
  | nil => exact ⟨rfl, fun sequence => rfl⟩
  | cons entry rest ih =>
      rcases entry with ⟨name, value⟩
      rcases List.nodup_cons.1 hdistinct with ⟨hname, hrest⟩
      have hunknown : batch.sequences.find? name = none := hnew (name, value) List.mem_cons_self
      -- A sequence that the batch does not know yet is brought to exactly the number.
      have hadvance : ∀ sequence, (batch.advance name value).sequences.find? sequence =
          if sequence = name then some value else batch.sequences.find? sequence := by
        intro sequence
        show (batch.sequences.insert name (max ((batch.sequences.find? name).getD 0) value)).find?
          sequence = _
        rw [SortedMap.find?_insert, hunknown]
        rfl
      -- The other sequences are still unknown, because names are distinct.
      have hlater : ∀ entry ∈ rest, (batch.advance name value).sequences.find? entry.1 = none := by
        intro entry hentry
        have hmem : entry.1 ∈ rest.map (·.1) := List.mem_map_of_mem hentry
        have hother : ¬entry.1 = name := fun heq => hname (heq ▸ hmem)
        rw [hadvance, if_neg hother]
        exact hnew entry (List.mem_cons_of_mem _ hentry)
      rcases ih hrest _ hlater with ⟨hwrites, hsequences⟩
      refine ⟨hwrites, ?_⟩
      intro sequence
      rw [List.foldl_cons, hsequences, hadvance, Entries.find?_cons]
      by_cases hsame : sequence = name
      · have hnone : Entries.find? name rest = none := Entries.find?_eq_none_iff.2 hname
        rw [hsame, if_pos rfl, if_pos rfl, hnone]
        rfl
      · rw [if_neg hsame, if_neg hsame]

/-- The writes of the batch are those of the staged rows, and it knows the sequences of the scope.
-/
theorem batch_eq (scope : Scope) :
    scope.batch.writes = (scope.staged.toList.foldl addStaged {}).writes ∧
      ∀ sequence, scope.batch.sequences.find? sequence = scope.sequences.find? sequence := by
  have hnone : (scope.staged.toList.foldl addStaged {}).sequences = ∅ :=
    (foldl_addStaged scope.staged.toList {} {}).1
  have hadvanced := foldl_advance scope.sequences.sorted.nodup_keys
    (scope.staged.toList.foldl addStaged {}) (by
      intro entry _
      rw [hnone, SortedMap.find?_empty])
  refine ⟨hadvanced.1, ?_⟩
  intro sequence
  have hsequences := hadvanced.2 sequence
  rw [hnone, SortedMap.find?_empty, Option.or_none] at hsequences
  exact hsequences

/-- After the batch of a scope every staged row is as it is staged, and every other row as it was.
-/
theorem row?_batch_apply (scope : Scope) (contents : Contents) (table : String) (id : UInt64) :
    (scope.batch.apply contents).row? table id =
      (scope.staged.find? (table, id)).getD (contents.row? table id) := by
  have hdistinct := nodup_stagedChange scope.staged.sorted.nodup_keys
  unfold Contents.row?
  -- Applying the batch lays the changes of the staged rows over the rows.
  rw [(Batch.apply_frame scope.batch contents).1, scope.batch_eq.1,
    (foldl_addStaged scope.staged.toList {} contents).2.2,
    SortedMap.find?_foldl_layOver hdistinct, find?_stagedChange]
  rfl

/-- A key that is not that of a staged row holds what it held. -/
theorem find?_batch_apply (scope : Scope) (contents : Contents) {key : Bytes}
    (hkey : ∀ table id row, scope.staged.find? (table, id) = some row → key ≠ rowKey table id) :
    (scope.batch.apply contents).rows.find? key = contents.rows.find? key := by
  have hdistinct := nodup_stagedChange scope.staged.sorted.nodup_keys
  have hnone : Entries.find? key (scope.staged.toList.map stagedChange) = none := by
    rw [Entries.find?_eq_none_iff, List.map_map]
    intro hmem
    rcases List.mem_map.1 hmem with ⟨⟨⟨table, id⟩, row⟩, hstaged, rfl⟩
    exact hkey table id row (SortedMap.find?_eq_some_iff.2 hstaged) rfl
  rw [(Batch.apply_frame scope.batch contents).1, scope.batch_eq.1,
    (foldl_addStaged scope.staged.toList {} contents).2.2,
    SortedMap.find?_foldl_layOver hdistinct, hnone]
  rfl

theorem sequenceValue_batch_apply (scope : Scope) (contents : Contents) (sequence : String) :
    (scope.batch.apply contents).sequenceValue sequence =
      max (contents.sequenceValue sequence) ((scope.sequences.find? sequence).getD 0) := by
  rw [Batch.sequenceValue_apply, scope.batch_eq.2]

/-- An empty batch comes from a scope that has staged nothing and drawn no number. -/
theorem of_batch_isEmpty {scope : Scope} (h : scope.batch.isEmpty = true) :
    (∀ key, scope.staged.find? key = none) ∧ ∀ sequence, scope.sequences.find? sequence = none := by
  unfold Batch.isEmpty at h
  rw [Bool.and_eq_true] at h
  refine ⟨?_, ?_⟩
  · have hlength := (foldl_addStaged scope.staged.toList {} {}).2.1
    rw [← scope.batch_eq.1, List.isEmpty_iff.1 h.1] at hlength
    have hnil : scope.staged.toList = [] :=
      List.eq_nil_of_length_eq_zero (by simpa using hlength.symm)
    exact SortedMap.find?_eq_none_of_isEmpty (List.isEmpty_iff.2 hnil)
  · intro sequence
    rw [← scope.batch_eq.2]
    exact SortedMap.find?_eq_none_of_isEmpty h.2 sequence

/-! ## Visible rows -/

/-- The change that a staged row makes to the rows of one table. -/
def tableChange (table : String) (staged : (String × UInt64) × Option StoredRow) :
    Option (UInt64 × Option StoredRow) :=
  if staged.1.1 = table then some (staged.1.2, staged.2) else none

theorem foldl_overlayRow (staged : List ((String × UInt64) × Option StoredRow)) (table : String)
    (rows : SortedMap UInt64 StoredRow) :
    staged.foldl (overlayRow table) rows =
      (staged.filterMap (tableChange table)).foldl SortedMap.layOver rows := by
  induction staged generalizing rows with
  | nil => rfl
  | cons change rest ih =>
      rcases change with ⟨⟨other, id⟩, row⟩
      rw [List.foldl_cons, ih, List.filterMap_cons, overlayRow, tableChange]
      by_cases htable : other = table
      · cases row with
        | none => simp only [htable, if_true, List.foldl_cons, SortedMap.layOver]
        | some row => simp only [htable, if_true, List.foldl_cons, SortedMap.layOver]
      · simp only [htable, if_false]

theorem find?_tableChange (staged : List ((String × UInt64) × Option StoredRow)) (table : String)
    (id : UInt64) :
    Entries.find? id (staged.filterMap (tableChange table)) = Entries.find? (table, id) staged := by
  induction staged with
  | nil => rfl
  | cons change rest ih =>
      rcases change with ⟨⟨other, number⟩, row⟩
      rw [List.filterMap_cons, tableChange, Entries.find?_cons]
      by_cases htable : other = table
      · rw [if_pos htable, Entries.find?_cons, ih, htable]
        simp
      · have hkey : ¬(table, id) = (other, number) := by
          intro heq
          cases heq
          exact htable rfl
        rw [if_neg htable, if_neg hkey, ih]

theorem nodup_tableChange {staged : List ((String × UInt64) × Option StoredRow)}
    (hdistinct : (staged.map (·.1)).Nodup) (table : String) :
    ((staged.filterMap (tableChange table)).map (·.1)).Nodup := by
  induction staged with
  | nil => exact List.nodup_nil
  | cons change rest ih =>
      rcases change with ⟨⟨other, number⟩, row⟩
      rcases List.nodup_cons.1 hdistinct with ⟨hnew, hrest⟩
      rw [List.filterMap_cons, tableChange]
      by_cases htable : other = table
      · rw [if_pos htable, List.map_cons, List.nodup_cons]
        refine ⟨?_, ih hrest⟩
        -- A number that is changed twice would be a key that is staged twice.
        rw [← Entries.find?_eq_none_iff, find?_tableChange, Entries.find?_eq_none_iff, ← htable]
        exact hnew
      · rw [if_neg htable]
        exact ih hrest

theorem find?_overlay (scope : Scope) (table : String) (rows : SortedMap UInt64 StoredRow)
    (id : UInt64) :
    (scope.staged.toList.foldl (overlayRow table) rows).find? id =
      (scope.staged.find? (table, id)).getD (rows.find? id) := by
  rw [foldl_overlayRow, SortedMap.find?_foldl_layOver
    (nodup_tableChange scope.staged.sorted.nodup_keys table), find?_tableChange]
  rfl

end Scope

/-! ## Rows of a scan -/

/-- Adds one row of a scan to those before it. -/
def collectRow (collected : SortedMap UInt64 StoredRow)
    (row : Except DataFault (UInt64 × StoredRow)) : Except Error (SortedMap UInt64 StoredRow) := do
  let (id, row) ← Error.ofData row
  return collected.insert id row

theorem collectRows_eq (rows : List (Except DataFault (UInt64 × StoredRow))) :
    collectRows rows = rows.foldlM collectRow ∅ := rfl

/-- Without malformed keys all rows are collected, and nothing else is. -/
theorem foldlM_collectRow_of_ok {rows : List (Except DataFault (UInt64 × StoredRow))}
    (hsound : ∀ fault, .error fault ∉ rows) (start : SortedMap UInt64 StoredRow) :
    ∃ collected, rows.foldlM collectRow start = .ok collected ∧
      (∀ id row, collected.find? id = some row →
        .ok (id, row) ∈ rows ∨ start.find? id = some row) ∧
      ∀ id, ((∃ row, .ok (id, row) ∈ rows) ∨ (start.find? id).isSome = true) →
        (collected.find? id).isSome = true := by
  induction rows generalizing start with
  | nil =>
      refine ⟨start, rfl, fun id row => Or.inr, ?_⟩
      rintro id (⟨row, hrow⟩ | hstart)
      · cases hrow
      · exact hstart
  | cons first rest ih =>
      cases first with
      | error fault => exact absurd List.mem_cons_self (hsound fault)
      | ok entry =>
          rcases entry with ⟨number, stored⟩
          rcases ih (fun fault hfault => hsound fault (List.mem_cons_of_mem _ hfault))
            (start.insert number stored) with ⟨collected, hcollected, hfrom, hall⟩
          refine ⟨collected, hcollected, ?_, ?_⟩
          -- Whatever was collected is in the scan; which of two equal numbers wins does not matter.
          · intro id row hrow
            rcases hfrom id row hrow with hmem | hinsert
            · exact Or.inl (List.mem_cons_of_mem _ hmem)
            · rcases SortedMap.find?_insert_eq_some.1 hinsert with ⟨rfl, rfl⟩ | ⟨-, hold⟩
              · exact Or.inl List.mem_cons_self
              · exact Or.inr hold
          · intro id hid
            refine hall id ?_
            rw [SortedMap.find?_insert]
            by_cases hsame : id = number
            · rw [if_pos hsame]
              exact Or.inr rfl
            · rw [if_neg hsame]
              rcases hid with ⟨row, hrow⟩ | hstart
              · rcases List.mem_cons.1 hrow with heq | hmem
                · cases heq
                  exact absurd rfl hsame
                · exact Or.inl ⟨row, hmem⟩
              · exact Or.inr hstart

/-- The first malformed key ends the collection. -/
theorem foldlM_collectRow_of_error {rows : List (Except DataFault (UInt64 × StoredRow))}
    {fault : DataFault} (hfault : .error fault ∈ rows) (start : SortedMap UInt64 StoredRow) :
    ∃ first, .error first ∈ rows ∧
      rows.foldlM collectRow start = .error (.invalidData first) := by
  induction rows generalizing start with
  | nil => cases hfault
  | cons head rest ih =>
      cases head with
      | error first => exact ⟨first, List.mem_cons_self, rfl⟩
      | ok entry =>
          rcases List.mem_cons.1 hfault with heq | hrest
          · cases heq
          · rcases ih hrest (start.insert entry.1 entry.2) with ⟨first, hfirst, herror⟩
            exact ⟨first, List.mem_cons_of_mem _ hfirst, herror⟩

/-- The rows collected from a scan of a table are the rows of the table. -/
theorem collectRows_scan_eq_ok {contents : Contents} {table : String}
    {rows : SortedMap UInt64 StoredRow} (h : collectRows (contents.scan table) = .ok rows)
    (id : UInt64) : rows.find? id = contents.row? table id := by
  have hsound : ∀ fault, .error fault ∉ contents.scan table := by
    intro fault hfault
    rcases foldlM_collectRow_of_error hfault ∅ with ⟨first, -, herror⟩
    rw [collectRows_eq, herror] at h
    cases h
  rcases foldlM_collectRow_of_ok hsound ∅ with ⟨collected, hcollected, hfrom, hall⟩
  rw [collectRows_eq, hcollected] at h
  cases h
  -- A scan has each number once: the row found under it is the one in the contents.
  cases hrow : contents.row? table id with
  | some row =>
      have hsome := hall id (Or.inl ⟨row, Contents.ok_mem_scan_iff.2 hrow⟩)
      rcases Option.isSome_iff_exists.1 hsome with ⟨other, hother⟩
      rcases hfrom id other hother with hmem | hempty
      · rw [hother, ← hrow, Contents.ok_mem_scan_iff.1 hmem]
      · cases hempty
  | none =>
      cases hother : rows.find? id with
      | none => rfl
      | some other =>
          rcases hfrom id other hother with hmem | hempty
          · rw [Contents.ok_mem_scan_iff.1 hmem] at hrow
            cases hrow
          · cases hempty

/-- Collecting the rows of a table fails exactly when some key of the table is malformed. -/
theorem collectRows_scan_cases (contents : Contents) (table : String) :
    (∃ rows, collectRows (contents.scan table) = .ok rows ∧
      ∀ fault, .error fault ∉ contents.scan table) ∨
    (.error .malformedRowKey ∈ contents.scan table ∧
      collectRows (contents.scan table) = .error (.invalidData .malformedRowKey)) := by
  by_cases hfault : .error .malformedRowKey ∈ contents.scan table
  · refine Or.inr ⟨hfault, ?_⟩
    rcases foldlM_collectRow_of_error hfault ∅ with ⟨first, hfirst, herror⟩
    rw [collectRows_eq, herror, (Contents.error_mem_scan_iff.1 hfirst).1]
  · refine Or.inl ?_
    have hsound : ∀ fault, .error fault ∉ contents.scan table := by
      intro fault hmem
      rw [(Contents.error_mem_scan_iff.1 hmem).1] at hmem
      exact hfault hmem
    rcases foldlM_collectRow_of_ok hsound ∅ with ⟨collected, hcollected, -⟩
    exact ⟨collected, hcollected, hsound⟩

namespace Scope

variable {scope : Scope} {env : Environment}

theorem row?_of_read {storage : Storage} {contents : Contents} (hread : storage.read = .ok contents)
    (table : String) (id : UInt64) : storage.row? table id = .ok (contents.row? table id) := by
  unfold Storage.row?
  rw [hread]
  rfl

theorem visibleRow_of_read {contents : Contents} (hread : env.storage.read = .ok contents)
    (table : String) (id : UInt64) :
    scope.visibleRow env table id =
      .ok ((scope.staged.find? (table, id)).getD (contents.row? table id)) := by
  unfold visibleRow
  rw [row?_of_read hread]
  cases scope.staged.find? (table, id) with
  | none => rfl
  | some row => rfl

/-- The visible rows of a table, taken together, are those that are seen one by one. -/
theorem find?_visibleRows {table : String} {rows : SortedMap UInt64 StoredRow}
    (h : scope.visibleRows env table = .ok rows) (id : UInt64) :
    scope.visibleRow env table id = .ok (rows.find? id) := by
  unfold visibleRows Storage.scan at h
  rcases bind_eq_ok.1 h with ⟨items, hitems, h⟩
  rcases bind_eq_ok.1 hitems with ⟨contents, hread, hscan⟩
  cases pure_eq_ok.1 hscan
  rcases bind_eq_ok.1 h with ⟨collected, hcollected, h⟩
  cases pure_eq_ok.1 h
  rw [visibleRow_of_read hread, find?_overlay, collectRows_scan_eq_ok hcollected]

end Scope

end RecordStore
