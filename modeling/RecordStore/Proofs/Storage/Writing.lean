import RecordStore.Proofs.SortedMap
import RecordStore.Storage.Basic

/-!
# What a batch writes

The writes of a batch change rows only, and its advances change sequences only.  A sequence never
goes back: after a batch it stands at the greater of the number it had and the number it is brought
to (`Batch.sequenceValue_apply`).
-/

namespace RecordStore

/-! ## Writes -/

theorem RowWrite.frame (contents : Contents) (write : RowWrite) :
    (write.apply contents).sequences = contents.sequences ∧
      (write.apply contents).catalog = contents.catalog ∧
      (write.apply contents).stamp = contents.stamp := by
  cases write with
  | put table id row => exact ⟨rfl, rfl, rfl⟩
  | delete table id => exact ⟨rfl, rfl, rfl⟩

/-- Writes leave everything but rows as it is. -/
theorem RowWrite.foldl_frame (writes : List RowWrite) (contents : Contents) :
    (writes.foldl RowWrite.apply contents).sequences = contents.sequences ∧
      (writes.foldl RowWrite.apply contents).catalog = contents.catalog ∧
      (writes.foldl RowWrite.apply contents).stamp = contents.stamp := by
  induction writes generalizing contents with
  | nil => exact ⟨rfl, rfl, rfl⟩
  | cons write rest ih =>
      rcases RowWrite.frame contents write with ⟨hsequences, hcatalog, hstamp⟩
      rw [List.foldl_cons, ← hsequences, ← hcatalog, ← hstamp]
      exact ih _

/-! ## Advances -/

namespace Contents

theorem sequenceValue_advanceSequence (contents : Contents) (sequence : String) (value : Nat)
    (other : String) :
    (contents.advanceSequence sequence value).sequenceValue other =
      if other = sequence then max (contents.sequenceValue sequence) value
      else contents.sequenceValue other := by
  unfold advanceSequence
  by_cases hvalue : contents.sequenceValue sequence < value
  · rw [if_pos hvalue, Nat.max_eq_right (Nat.le_of_lt hvalue)]
    unfold sequenceValue
    rw [SortedMap.find?_insert]
    by_cases hother : other = sequence
    · rw [if_pos hother, if_pos hother]
      rfl
    · rw [if_neg hother, if_neg hother]
  · rw [if_neg hvalue]
    by_cases hother : other = sequence
    · rw [if_pos hother, hother, Nat.max_eq_left (Nat.le_of_not_lt hvalue)]
    · rw [if_neg hother]

theorem advanceSequence_frame (contents : Contents) (sequence : String) (value : Nat) :
    (contents.advanceSequence sequence value).rows = contents.rows ∧
      (contents.advanceSequence sequence value).catalog = contents.catalog ∧
      (contents.advanceSequence sequence value).stamp = contents.stamp := by
  unfold advanceSequence
  by_cases hvalue : contents.sequenceValue sequence < value
  · rw [if_pos hvalue]
    exact ⟨rfl, rfl, rfl⟩
  · rw [if_neg hvalue]
    exact ⟨rfl, rfl, rfl⟩

/-- Advances leave everything but sequences as it is. -/
theorem foldl_advanceSequence_frame (entries : List (String × Nat)) (contents : Contents) :
    let advanced :=
      entries.foldl (fun contents entry => contents.advanceSequence entry.1 entry.2) contents
    advanced.rows = contents.rows ∧ advanced.catalog = contents.catalog ∧
      advanced.stamp = contents.stamp := by
  induction entries generalizing contents with
  | nil => exact ⟨rfl, rfl, rfl⟩
  | cons entry rest ih =>
      rcases advanceSequence_frame contents entry.1 entry.2 with ⟨hrows, hcatalog, hstamp⟩
      rw [List.foldl_cons, ← hrows, ← hcatalog, ← hstamp]
      exact ih _

theorem sequenceValue_foldl_advanceSequence {entries : List (String × Nat)}
    (hdistinct : (entries.map (·.1)).Nodup) (contents : Contents) (sequence : String) :
    (entries.foldl (fun contents entry => contents.advanceSequence entry.1 entry.2)
      contents).sequenceValue sequence =
      max (contents.sequenceValue sequence) ((Entries.find? sequence entries).getD 0) := by
  induction entries generalizing contents with
  | nil => exact (Nat.max_zero _).symm
  | cons entry rest ih =>
      rcases entry with ⟨name, value⟩
      rcases List.nodup_cons.1 hdistinct with ⟨hnew, hrest⟩
      rw [List.foldl_cons, ih hrest, sequenceValue_advanceSequence, Entries.find?_cons]
      by_cases hname : sequence = name
      · have hlater : Entries.find? name rest = none := Entries.find?_eq_none_iff.2 hnew
        rw [hname, if_pos rfl, if_pos rfl, hlater]
        exact Nat.max_zero _
      · rw [if_neg hname, if_neg hname]

end Contents

/-! ## Batches -/

namespace Batch

theorem apply_frame (batch : Batch) (contents : Contents) :
    (batch.apply contents).rows = (batch.writes.foldl RowWrite.apply contents).rows ∧
      (batch.apply contents).catalog = contents.catalog ∧
      (batch.apply contents).stamp = contents.stamp := by
  rcases RowWrite.foldl_frame batch.writes contents with ⟨-, hcatalog, hstamp⟩
  rw [← hcatalog, ← hstamp]
  exact Contents.foldl_advanceSequence_frame batch.sequences.toList _

/-- Each sequence is brought to the number in the batch unless it has come further. -/
theorem sequenceValue_apply (batch : Batch) (contents : Contents) (sequence : String) :
    (batch.apply contents).sequenceValue sequence =
      max (contents.sequenceValue sequence) ((batch.sequences.find? sequence).getD 0) := by
  have hwritten : (batch.writes.foldl RowWrite.apply contents).sequenceValue sequence =
      contents.sequenceValue sequence := by
    unfold Contents.sequenceValue
    rw [(RowWrite.foldl_frame batch.writes contents).1]
  rw [← hwritten]
  exact Contents.sequenceValue_foldl_advanceSequence batch.sequences.sorted.nodup_keys _ sequence

end Batch

end RecordStore
