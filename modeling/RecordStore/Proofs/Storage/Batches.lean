import Mathlib.Order.Bounds.Basic
import RecordStore.Proofs.Scope.Staging
import RecordStore.Proofs.Storage.Isolation

/-!
# Batches one after the other

A batch is collected by calls.  Applied to a storage, batches bring each sequence to the greatest of the
number it had and all numbers it was brought to (`Batch.isGreatest_foldl_apply`), so the order of the
batches does not matter for sequences.  It does matter for rows: of all writes to a row the last one
decides (`Contents.row?_foldl_write`).
-/

namespace RecordStore

/-! ## Calls -/

/-- A call that adds to a batch. -/
inductive BatchCall where
  | put (table : String) (id : UInt64) (row : StoredRow)
  | delete (table : String) (id : UInt64)
  | advance (sequence : String) (value : Nat)

namespace BatchCall

/-- The batch after a call. -/
def addTo (batch : Batch) : BatchCall → Batch
  | put table id row => batch.put table id row
  | delete table id => batch.delete table id
  | advance sequence value => batch.advance sequence value

/-- The write of a row that a call adds. -/
def write? : BatchCall → Option RowWrite
  | put table id row => some (.put table id row)
  | delete table id => some (.delete table id)
  | advance .. => none

/-- The number to which a call brings a sequence. -/
def target? (sequence : String) : BatchCall → Option Nat
  | advance other value => if other = sequence then some value else none
  | _ => none

theorem target?_eq_some {sequence : String} {value : Nat} {call : BatchCall} :
    call.target? sequence = some value ↔ call = .advance sequence value := by
  cases call with
  | advance other number =>
      unfold target?
      rw [Option.ite_none_right_eq_some, Option.some_inj, advance.injEq]
  | _ => simp [target?]

end BatchCall

namespace Batch

/-- The batch that calls collect. -/
def ofCalls (calls : List BatchCall) : Batch :=
  calls.foldl BatchCall.addTo {}

theorem writes_ofCalls (calls : List BatchCall) :
    (ofCalls calls).writes = calls.filterMap BatchCall.write? := by
  have hfold : ∀ batch : Batch,
      (calls.foldl BatchCall.addTo batch).writes = batch.writes ++ calls.filterMap BatchCall.write? := by
    induction calls with
    | nil => exact fun batch => (List.append_nil _).symm
    | cons call rest ih =>
        intro batch
        rw [List.foldl_cons, ih]
        cases call with
        | advance => rfl
        | _ => exact List.append_assoc ..
  exact hfold {}

/-- A batch knows of each sequence the greatest number to which a call brought it. -/
theorem sequences_ofCalls (calls : List BatchCall) (sequence : String) :
    ((ofCalls calls).sequences.find? sequence).getD 0 =
      (calls.filterMap (BatchCall.target? sequence)).foldl max 0 := by
  have hfold : ∀ batch : Batch,
      ((calls.foldl BatchCall.addTo batch).sequences.find? sequence).getD 0 =
        (calls.filterMap (BatchCall.target? sequence)).foldl max
          ((batch.sequences.find? sequence).getD 0) := by
    induction calls with
    | nil => exact fun batch => rfl
    | cons call rest ih =>
        intro batch
        rw [List.foldl_cons, ih]
        cases call with
        | advance other value =>
            have hadvance : (batch.advance other value).sequences.find? sequence =
                if sequence = other then some (max ((batch.sequences.find? other).getD 0) value)
                else batch.sequences.find? sequence := SortedMap.find?_insert ..
            show List.foldl max (((batch.advance other value).sequences.find? sequence).getD 0) _ = _
            rw [hadvance, List.filterMap_cons]
            by_cases hsame : sequence = other
            · subst hsame
              simp [BatchCall.target?]
            · have hother : ¬other = sequence := fun heq => hsame heq.symm
              simp [BatchCall.target?, hsame, hother]
        | _ => rfl
  exact hfold {}

theorem isEmpty_addTo (batch : Batch) (call : BatchCall) : (call.addTo batch).isEmpty = false := by
  have hwritten : ∀ write, ({ batch with writes := batch.writes ++ [write] } : Batch).isEmpty = false := by
    intro write
    simp [isEmpty]
  cases call with
  | put table id row => exact hwritten _
  | delete table id => exact hwritten _
  | advance sequence value =>
      refine Bool.eq_false_iff.2 fun hempty => ?_
      have hnone := SortedMap.find?_eq_none_of_isEmpty (Bool.and_eq_true_iff.1 hempty).2 sequence
      have hknown := SortedMap.find?_insert batch.sequences sequence sequence
        (max ((batch.sequences.find? sequence).getD 0) value)
      rw [if_pos rfl] at hknown
      cases hnone.symm.trans hknown

/-- Only a batch of no calls is empty. -/
theorem isEmpty_ofCalls (calls : List BatchCall) : (ofCalls calls).isEmpty = calls.isEmpty := by
  rcases List.eq_nil_or_concat' calls with rfl | ⟨before, last, rfl⟩
  · rfl
  · -- Whatever came before, the last call leaves something to apply.
    rw [ofCalls, List.foldl_concat, isEmpty_addTo]
    simp

end Batch

/-! ## Sequences -/

/-- The greatest of a number and others. -/
theorem isGreatest_foldl_max (start : Nat) (values : List Nat) :
    IsGreatest {value | value = start ∨ value ∈ values} (values.foldl max start) := by
  induction values generalizing start with
  | nil =>
      refine ⟨Or.inl rfl, ?_⟩
      rintro value (rfl | hmem)
      · exact Nat.le_refl _
      · cases hmem
  | cons value rest ih =>
      obtain ⟨hmem, hle⟩ := ih (max start value)
      constructor
      · rcases hmem with hstart | hrest
        · rcases Nat.le_total start value with h | h
          · right
            rw [List.foldl_cons, hstart, Nat.max_eq_right h]
            exact List.mem_cons_self
          · left
            rw [List.foldl_cons, hstart, Nat.max_eq_left h]
        · exact Or.inr (List.mem_cons_of_mem _ hrest)
      · have hstart : max start value ≤ rest.foldl max (max start value) := hle (Or.inl rfl)
        rintro other (rfl | hother)
        · exact Nat.le_trans (Nat.le_max_left ..) hstart
        · rcases List.mem_cons.1 hother with rfl | hrest
          · exact Nat.le_trans (Nat.le_max_right ..) hstart
          · exact hle (Or.inr hrest)

namespace Contents

variable (contents : Contents) (applied : List (List BatchCall))

/-- The contents after batches were applied one after the other. -/
def applyAll (contents : Contents) (applied : List (List BatchCall)) : Contents :=
  applied.foldl (fun contents calls => (Batch.ofCalls calls).apply contents) contents

theorem sequenceValue_applyAll (sequence : String) :
    (contents.applyAll applied).sequenceValue sequence =
      (applied.flatten.filterMap (BatchCall.target? sequence)).foldl max
        (contents.sequenceValue sequence) := by
  induction applied generalizing contents with
  | nil => rfl
  | cons calls rest ih =>
      have hbatch : ((Batch.ofCalls calls).apply contents).sequenceValue sequence =
          (calls.filterMap (BatchCall.target? sequence)).foldl max
            (contents.sequenceValue sequence) := by
        rw [Batch.sequenceValue_apply, Batch.sequences_ofCalls]
        refine List.foldl_assoc.symm.trans ?_
        rw [Nat.max_zero]
      rw [List.flatten_cons, List.filterMap_append, List.foldl_append, ← hbatch]
      exact ih _

/-- Each sequence comes to the greatest of its number and all numbers that it is brought to. -/
theorem isGreatest_applyAll (sequence : String) :
    IsGreatest {value | value = contents.sequenceValue sequence ∨
        ∃ calls ∈ applied, .advance sequence value ∈ calls}
      ((contents.applyAll applied).sequenceValue sequence) := by
  have htargets : ∀ value, value ∈ applied.flatten.filterMap (BatchCall.target? sequence) ↔
      ∃ calls ∈ applied, .advance sequence value ∈ calls := by
    intro value
    simp [BatchCall.target?_eq_some, List.mem_filterMap, List.mem_flatten]
  simp only [← htargets]
  rw [sequenceValue_applyAll]
  exact isGreatest_foldl_max ..

theorem applyAll_append (later : List (List BatchCall)) :
    contents.applyAll (applied ++ later) = (contents.applyAll applied).applyAll later :=
  List.foldl_append

/-- No batch lowers a sequence. -/
theorem sequenceValue_le_applyAll (sequence : String) :
    contents.sequenceValue sequence ≤ (contents.applyAll applied).sequenceValue sequence :=
  (contents.isGreatest_applyAll applied sequence).2 (Or.inl rfl)

end Contents

/-! ## Rows -/

namespace RowWrite

/-- The row that a write is for, and what it leaves there. -/
def effect : RowWrite → (String × UInt64) × Option StoredRow
  | put table id row => ((table, id), some row)
  | delete table id => ((table, id), none)

theorem rows_foldl (writes : List RowWrite) (contents : Contents) :
    (writes.foldl apply contents).rows =
      ((writes.map effect).map Scope.stagedChange).foldl SortedMap.layOver contents.rows := by
  induction writes generalizing contents with
  | nil => rfl
  | cons write rest ih =>
      rw [List.foldl_cons, ih]
      cases write with
      | put table id row => rfl
      | delete table id => rfl

theorem row?_foldl (writes : List RowWrite) (contents : Contents) (table : String) (id : UInt64) :
    (writes.foldl apply contents).row? table id =
      (Entries.find? (table, id) (writes.map effect).reverse).getD (contents.row? table id) := by
  unfold Contents.row?
  rw [rows_foldl, SortedMap.find?_foldl_layOver_reverse, ← List.map_reverse, Scope.find?_stagedChange]

/-- The last write to a row decides what is there. -/
theorem row?_foldl_of_last {before after : List RowWrite} {write : RowWrite} {table : String}
    {id : UInt64} {row : Option StoredRow} (hwrite : write.effect = ((table, id), row))
    (hlast : ∀ later ∈ after, later.effect.1 ≠ (table, id)) (contents : Contents) :
    ((before ++ write :: after).foldl apply contents).row? table id = row := by
  have hnone : Entries.find? (table, id) (after.map effect).reverse = none := by
    rw [Entries.find?_eq_none_iff, List.map_reverse, List.mem_reverse, List.map_map, List.mem_map]
    rintro ⟨later, hlater, heq⟩
    exact hlast later hlater heq
  rw [row?_foldl, List.map_append, List.map_cons, List.reverse_append, List.reverse_cons,
    List.append_assoc, Entries.find?_append, hnone, hwrite]
  exact congrArg (Option.getD · _) ((Entries.find?_cons ..).trans (if_pos rfl))

/-- A row that no write is for stays as it is. -/
theorem row?_foldl_of_none {writes : List RowWrite} {table : String} {id : UInt64}
    (hnone : ∀ write ∈ writes, write.effect.1 ≠ (table, id)) (contents : Contents) :
    (writes.foldl apply contents).row? table id = contents.row? table id := by
  have hfind : Entries.find? (table, id) (writes.map effect).reverse = none := by
    rw [Entries.find?_eq_none_iff, List.map_reverse, List.mem_reverse, List.map_map, List.mem_map]
    rintro ⟨write, hwrite, heq⟩
    exact hnone write hwrite heq
  rw [row?_foldl, hfind]
  rfl

end RowWrite

/-- The writes of rows in batches, in order. -/
def rowWrites (applied : List (List BatchCall)) : List RowWrite :=
  applied.flatten.filterMap BatchCall.write?

/-- Batches write rows as their writes do one after the other. -/
theorem Contents.rows_applyAll (contents : Contents) (applied : List (List BatchCall)) :
    (contents.applyAll applied).rows = ((rowWrites applied).foldl RowWrite.apply contents).rows := by
  induction applied generalizing contents with
  | nil => rfl
  | cons calls rest ih =>
      have hbatch := ((Batch.ofCalls calls).apply_frame contents).1
      rw [Batch.writes_ofCalls] at hbatch
      have hwrites : rowWrites (calls :: rest) = calls.filterMap BatchCall.write? ++ rowWrites rest :=
        List.filterMap_append
      rw [hwrites, List.foldl_append, RowWrite.rows_foldl (rowWrites rest), ← hbatch,
        ← RowWrite.rows_foldl]
      exact ih _

/-! ## Storages -/

namespace Storage

/-- The storage after batches were applied one after the other. -/
def applyAll (storage : Storage) (applied : List (List BatchCall)) : Except Error Storage :=
  (applied.map Batch.ofCalls).foldlM Storage.apply storage

variable {storage : Storage}

theorem applyAll_of_read {contents : Contents} (hread : storage.read = .ok contents)
    (applied : List (List BatchCall)) :
    ∃ storage', storage.applyAll applied = .ok storage' ∧
      storage'.read = .ok (contents.applyAll applied) := by
  induction applied generalizing storage contents with
  | nil => exact ⟨storage, rfl, hread⟩
  | cons calls rest ih =>
      obtain ⟨next, hrun, hnext⟩ := StorageStep.run_of_read hread (.apply (Batch.ofCalls calls))
      obtain ⟨storage', hrest, hread'⟩ := ih hnext
      refine ⟨storage', ?_, hread'⟩
      unfold applyAll
      rw [List.map_cons, List.foldlM_cons]
      exact bind_eq_ok.2 ⟨next, hrun, hrest⟩

/-- The first batch that is not empty fails where the storage is not available. -/
theorem applyAll_of_unavailable {error : Error} (hread : storage.read = .error error)
    (applied : List (List BatchCall)) :
    storage.applyAll applied = if ∀ calls ∈ applied, calls = [] then .ok storage else .error error := by
  induction applied with
  | nil => rfl
  | cons calls rest ih =>
      unfold applyAll
      rw [List.map_cons, List.foldlM_cons]
      unfold Storage.apply
      rw [Batch.isEmpty_ofCalls]
      cases calls with
      | nil =>
          refine Eq.trans ih ?_
          simp
      | cons call calls =>
          have hfail : storage.change (Batch.ofCalls (call :: calls)).apply = .error error := by
            unfold change
            rw [hread]
            rfl
          simp [hfail, bind, Except.bind]

end Storage

/-- Applied to a storage that is there, batches succeed in any order.  They bring each sequence to the
greatest of the number it had and all numbers that some batch brings it to, whatever their order, and
going on with more batches never lowers a sequence.  Rows are as the writes of the batches leave them one
after the other: the last write to a row decides what is there, and a row without a write stays.  Applied
to a storage that is not there, batches fail unless all of them are empty. -/
theorem sequences_only_advance (storage : Storage) (collected applied : List (List BatchCall))
    (horder : applied.Perm collected) :
    (∀ initial, storage.read = .ok initial →
      ∃ storage' final, storage.applyAll applied = .ok storage' ∧ storage'.read = .ok final ∧
        (∀ sequence, IsGreatest {value | value = initial.sequenceValue sequence ∨
            ∃ calls ∈ collected, .advance sequence value ∈ calls} (final.sequenceValue sequence)) ∧
        (∀ earlier later, earlier <+: later →
          ∃ before after, storage.applyAll earlier = .ok before ∧ storage.applyAll later = .ok after ∧
            ∀ sequence, ∃ value value', before.sequenceValue sequence = .ok value ∧
              after.sequenceValue sequence = .ok value' ∧ value ≤ value') ∧
        final.rows = ((rowWrites applied).foldl RowWrite.apply initial).rows ∧
        (∀ before write after table id row, rowWrites applied = before ++ write :: after →
          write.effect = ((table, id), row) → (∀ later ∈ after, later.effect.1 ≠ (table, id)) →
          storage'.row? table id = .ok row) ∧
        ∀ table id, (∀ write ∈ rowWrites applied, write.effect.1 ≠ (table, id)) →
          storage'.row? table id = storage.row? table id) ∧
    ∀ error, storage.read = .error error →
      storage.applyAll applied = if ∀ calls ∈ applied, calls = [] then .ok storage else .error error := by
  refine ⟨?_, fun error hread => Storage.applyAll_of_unavailable hread applied⟩
  intro initial hread
  obtain ⟨storage', hrun, hread'⟩ := Storage.applyAll_of_read hread applied
  refine ⟨storage', _, hrun, hread', ?_, ?_, initial.rows_applyAll applied, ?_, ?_⟩
  · intro sequence
    -- What sequences are brought to does not depend on the order.
    simp only [← horder.mem_iff]
    exact initial.isGreatest_applyAll applied sequence
  · rintro earlier later ⟨rest, rfl⟩
    obtain ⟨before, hbefore, hreadBefore⟩ := Storage.applyAll_of_read hread earlier
    obtain ⟨after, hafter, hreadAfter⟩ := Storage.applyAll_of_read hread (earlier ++ rest)
    refine ⟨before, after, hbefore, hafter, fun sequence => ⟨_, _,
      Storage.sequenceValue_eq_ok.2 ⟨_, hreadBefore, rfl⟩,
      Storage.sequenceValue_eq_ok.2 ⟨_, hreadAfter, rfl⟩, ?_⟩⟩
    rw [Contents.applyAll_append]
    exact Contents.sequenceValue_le_applyAll ..
  · intro before write after table id row hwrites hwrite hlast
    refine Storage.row?_eq_ok.2 ⟨_, hread', ?_⟩
    unfold Contents.row?
    rw [initial.rows_applyAll, hwrites]
    exact RowWrite.row?_foldl_of_last hwrite hlast initial
  · intro table id hnone
    have hstays : storage.row? table id = .ok (initial.row? table id) :=
      Storage.row?_eq_ok.2 ⟨_, hread, rfl⟩
    rw [hstays]
    refine Storage.row?_eq_ok.2 ⟨_, hread', ?_⟩
    unfold Contents.row?
    rw [initial.rows_applyAll]
    exact RowWrite.row?_foldl_of_none hnone initial

/-- Two batches: the later number of the sequence comes with the row, the earlier one with its removal. -/
def rowAndRemoval : List (List BatchCall) := [
  [.put "rounds" 1 emptyRow, .advance "rounds_id_seq" 5],
  [.advance "rounds_id_seq" 3, .delete "rounds" 1]]

theorem sequences_only_advance_swapped :
    rowAndRemoval.Perm rowAndRemoval.reverse ∧
      ∃ storage' final, emptyMemory.applyAll rowAndRemoval = .ok storage' ∧
        storage'.read = .ok final ∧ final.sequenceValue "rounds_id_seq" = 5 ∧
        storage'.row? "rounds" 1 = .ok none := by
  have horder : rowAndRemoval.Perm rowAndRemoval.reverse := (List.reverse_perm _).symm
  obtain ⟨hthere, -⟩ := sequences_only_advance emptyMemory rowAndRemoval.reverse rowAndRemoval horder
  obtain ⟨storage', final, hrun, hread, hsequences, -, -, hlast, -⟩ := hthere {} rfl
  refine ⟨horder, storage', final, hrun, hread, ?_, ?_⟩
  · obtain ⟨hmem, hle⟩ := hsequences "rounds_id_seq"
    have hfive : 5 ≤ final.sequenceValue "rounds_id_seq" :=
      hle (Or.inr ⟨[.put "rounds" 1 emptyRow, .advance "rounds_id_seq" 5], by simp [rowAndRemoval],
        by simp⟩)
    rcases hmem with hzero | ⟨calls, hcalls, hcall⟩
    · have hstart : Contents.sequenceValue {} "rounds_id_seq" = 0 := rfl
      omega
    · have hnumber : final.sequenceValue "rounds_id_seq" = 3 ∨
          final.sequenceValue "rounds_id_seq" = 5 := by
        rcases (by simpa [rowAndRemoval] using hcalls) with rfl | rfl
        · exact Or.inl (by simpa using hcall)
        · exact Or.inr (by simpa using hcall)
      omega
  · exact hlast [.put "rounds" 1 emptyRow] (.delete "rounds" 1) [] "rounds" 1 none rfl rfl
      fun later hlater => nomatch hlater

end RecordStore
