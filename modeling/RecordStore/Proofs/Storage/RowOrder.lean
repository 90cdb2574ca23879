import Mathlib.Data.Set.List
import RecordStore.Proofs.ByteOrder
import RecordStore.Proofs.Storage.Isolation

/-!
# The order of rows

The key of a row lays out the name of its table and its number so that the order of the keys is the
order of these pairs (`rowKey_lt_iff`): a zero byte ends the name, which has no other, and the number
comes high byte first.  Within one table this holds for any name (`rowKey_lt_rowKey_iff`), so a scan
goes through the rows by their numbers (`Contents.sorted_scan`).

A storage whose tables are all named without zero characters holds no key that a scan of such a table
would stumble over (`Contents.PlainKeys`).
-/

namespace RecordStore

/-- The name of a table has no zero character. -/
def IsPlainName (table : String) : Prop :=
  '\x00' ∉ table.toList

instance (table : String) : Decidable (IsPlainName table) :=
  inferInstanceAs (Decidable ('\x00' ∉ table.toList))

/-! ## Keys -/

/-- Rows of different tables stand in the order of the names, whatever their numbers. -/
theorem rowKey_lt_iff {a b : String} {i j : UInt64} (ha : IsPlainName a) (hb : IsPlainName b) :
    rowKey a i < rowKey b j ↔ textBytes a < textBytes b ∨ a = b ∧ i < j := by
  have hfront : ∀ table (id : UInt64),
      rowKey table id = textBytes table ++ 0 :: bigEndian rowIdSize id.toNat := by
    intro table id
    simp [rowKey, tableKey]
  have hzero : ∀ {table}, IsPlainName table → 0 ∉ textBytes table :=
    fun hplain hmem => hplain (zero_mem_textBytes.1 hmem)
  have hsame : textBytes a = textBytes b ↔ a = b := ⟨textBytes_injective, congrArg textBytes⟩
  calc rowKey a i < rowKey b j
      ↔ textBytes a < textBytes b ∨ textBytes a = textBytes b ∧
          bigEndian rowIdSize i.toNat < bigEndian rowIdSize j.toNat := by
        rw [hfront, hfront, separated_lt_iff (hzero ha) (hzero hb)]
    _ ↔ textBytes a < textBytes b ∨ a = b ∧ i < j := by
        rw [hsame, bigEndian_lt_iff i.toNat_lt j.toNat_lt, UInt64.lt_iff_toNat_lt]

/-- The rows of one table stand in the order of their numbers, whatever its name is. -/
theorem rowKey_lt_rowKey_iff {table : String} {i j : UInt64} :
    rowKey table i < rowKey table j ↔ i < j := by
  unfold rowKey
  rw [append_lt_append_iff rfl, bigEndian_lt_iff i.toNat_lt j.toNat_lt, UInt64.lt_iff_toNat_lt]
  have hirrefl : ¬ tableKey table < tableKey table := List.lt_irrefl _
  simp [hirrefl]

/-! ## Scans -/

namespace Contents

variable {contents : Contents} {table : String}

/-- A scan goes through the rows by their numbers. -/
theorem sorted_scan (contents : Contents) (table : String) :
    ((contents.scan table).filterMap fun found => found.toOption.map (·.1)).Pairwise (· < ·) := by
  rw [numbers_scan, List.pairwise_filterMap, List.pairwise_map]
  refine contents.rows.sorted.imp ?_
  intro entry other hlt id hid id' hid'
  rw [Option.ite_none_right_eq_some] at hid hid'
  rw [eq_rowKey_of_rowIdOfKey? hid.1 hid.2, eq_rowKey_of_rowIdOfKey? hid'.1 hid'.2] at hlt
  exact rowKey_lt_rowKey_iff.1 (keyOrder_iff.1 hlt)

/-- All rows are those of tables that are named without zero characters. -/
def PlainKeys (contents : Contents) : Prop :=
  ∀ key, (contents.rows.find? key).isSome → ∃ table id, IsPlainName table ∧ key = rowKey table id

theorem plainKeys_empty : PlainKeys {} := by
  intro key hkey
  cases hkey

theorem PlainKeys.onContents (h : contents.PlainKeys) (step : StorageStep)
    (hplain : ∀ written ∈ step.tables, IsPlainName written) :
    (step.onContents contents).PlainKeys := by
  intro key hkey
  rcases StorageStep.key_of_onContents step hkey with hbefore | ⟨written, hwritten, id, heq⟩
  · exact h key hbefore
  · exact ⟨written, id, hplain written hwritten, heq⟩

/-- No key is malformed where all names are plain: a key that the table owns is that of a row of the
table. -/
theorem PlainKeys.scan_eq_ok (h : contents.PlainKeys) (htable : IsPlainName table) :
    ∀ found ∈ contents.scan table, ∃ row, found = .ok row := by
  intro found hfound
  cases found with
  | ok row => exact ⟨row, rfl⟩
  | error fault =>
      obtain ⟨-, key, row, hrow, howned, hother⟩ := error_mem_scan_iff.1 hfound
      obtain ⟨written, id, hwritten, rfl⟩ := h key (by rw [hrow]; rfl)
      obtain rfl := eq_of_ownsKey (apart_of_not_mem htable hwritten) howned
        (ownsKey_rowKey written id)
      exact absurd rfl (hother id)

/-- Then a scan is the list of the rows of the table, by their numbers. -/
theorem PlainKeys.exists_rows (h : contents.PlainKeys) (htable : IsPlainName table) :
    ∃ rows : List (UInt64 × StoredRow), contents.scan table = rows.map .ok ∧
      rows.Pairwise (·.1 < ·.1) ∧
      ∀ id row, (id, row) ∈ rows ↔ contents.row? table id = some row := by
  obtain ⟨rows, hrows⟩ : contents.scan table ∈ Set.range (List.map Except.ok) := by
    rw [Set.range_list_map]
    intro found hfound
    obtain ⟨row, rfl⟩ := h.scan_eq_ok htable found hfound
    exact Set.mem_range_self row
  refine ⟨rows, hrows.symm, ?_, ?_⟩
  · have hsorted := contents.sorted_scan table
    rw [← hrows, List.filterMap_map, List.pairwise_filterMap] at hsorted
    refine hsorted.imp ?_
    intro row other hlt
    exact hlt row.1 rfl other.1 rfl
  · intro id row
    rw [← ok_mem_scan_iff, ← hrows]
    simp

/-- Steps on tables with plain names keep all names plain. -/
theorem PlainKeys.run_steps {storage : Storage} (hread : storage.read = .ok contents)
    (h : contents.PlainKeys) (steps : List StorageStep)
    (hplain : ∀ step ∈ steps, ∀ written ∈ step.tables, IsPlainName written) :
    ∃ storage' contents', steps.foldlM StorageStep.run storage = .ok storage' ∧
      storage'.read = .ok contents' ∧ contents'.PlainKeys := by
  induction steps generalizing storage contents with
  | nil => exact ⟨storage, contents, rfl, hread, h⟩
  | cons step rest ih =>
      obtain ⟨next, hrun, hnext⟩ := StorageStep.run_of_read hread step
      obtain ⟨storage', contents', hrest, hend⟩ :=
        ih hnext (h.onContents step (hplain step List.mem_cons_self))
          fun later hlater => hplain later (List.mem_cons_of_mem _ hlater)
      refine ⟨storage', contents', ?_, hend⟩
      rw [List.foldlM_cons, hrun]
      exact hrest

end Contents

/-- The keys of rows stand for the pairs of a table and a number: each key for one pair, from which
the number is read back, and, for tables that are named without zero characters, in the order of the
bytes of the names and then of the numbers.  A scan comes upon the rows of a table by increasing
numbers; where all tables are named in this way it shows these rows and nothing else. -/
theorem row_keys_are_ordered :
    (∀ (a b : String) (i j : UInt64), rowKey a i = rowKey b j ↔ a = b ∧ i = j) ∧
    (∀ (table : String) (id : UInt64),
      rowIdOfKey? (rowKey table id) (tableKey table).length = some id) ∧
    (∀ (a b : String) (i j : UInt64), IsPlainName a → IsPlainName b →
      (rowKey a i < rowKey b j ↔ textBytes a < textBytes b ∨ a = b ∧ i < j)) ∧
    (∀ a b : String, textBytes a < textBytes b ↔ a < b) ∧
    (∀ key other : Bytes, KeyOrder.lt key other = true ↔ key < other) ∧
    (∀ (contents : Contents) (table : String),
      ((contents.scan table).filterMap fun found => found.toOption.map (·.1)).Pairwise (· < ·)) ∧
    ∀ (storage : Storage) (contents : Contents), storage.read = .ok contents → contents.PlainKeys →
      ∀ steps : List StorageStep,
      (∀ step ∈ steps, ∀ written ∈ step.tables, IsPlainName written) →
      ∃ storage', steps.foldlM StorageStep.run storage = .ok storage' ∧
        ∀ table, IsPlainName table → ∃ rows : List (UInt64 × StoredRow),
          storage'.scan table = .ok (rows.map .ok) ∧ rows.Pairwise (·.1 < ·.1) ∧
          ∀ id row, (id, row) ∈ rows ↔ storage'.row? table id = .ok (some row) := by
  refine ⟨fun a b i j => rowKey_inj, rowIdOfKey?_rowKey, fun a b i j => rowKey_lt_iff,
    fun a b => textBytes_lt_iff, fun key other => keyOrder_iff, Contents.sorted_scan, ?_⟩
  -- Writes to tables with plain names bring only plain keys, from which the rows are read off at the end.
  intro storage contents hread hplain steps hsteps
  obtain ⟨storage', contents', hrun, hread', hplain'⟩ := hplain.run_steps hread steps hsteps
  refine ⟨storage', hrun, fun table htable => ?_⟩
  obtain ⟨rows, hscan, hsorted, hrows⟩ := hplain'.exists_rows htable
  refine ⟨rows, ?_, hsorted, fun id row => ?_⟩
  · unfold Storage.scan
    rw [hread', ← hscan]
    rfl
  · rw [hrows, Storage.row?_eq_ok]
    constructor
    · intro hrow
      exact ⟨contents', hread', hrow⟩
    · rintro ⟨other, hother, hrow⟩
      cases hread'.symm.trans hother
      exact hrow

/-- Rows that are written in another order, one of them beyond the first byte, in two tables of which
the one is named after the other. -/
def roundRows : List StorageStep := [
  .apply { writes := [
    .put "rounds" 256 emptyRow, .put "round" 256 emptyRow, .put "rounds" 2 emptyRow] }]

theorem row_keys_are_ordered_rounds :
    IsPlainName "round" ∧ IsPlainName "rounds" ∧ rowKey "round" 256 < rowKey "rounds" 2 ∧
      ∃ storage, roundRows.foldlM StorageStep.run emptyMemory = .ok storage ∧
        ∃ rows : List (UInt64 × StoredRow), storage.scan "rounds" = .ok (rows.map .ok) ∧
          rows.Pairwise (·.1 < ·.1) ∧ (2, emptyRow) ∈ rows ∧ (256, emptyRow) ∈ rows := by
  obtain ⟨-, -, horder, hbytes, -, -, hscans⟩ := row_keys_are_ordered
  have hround : IsPlainName "round" := by decide
  have hrounds : IsPlainName "rounds" := by decide
  refine ⟨hround, hrounds, ?_, ?_⟩
  · refine (horder "round" "rounds" 256 2 hround hrounds).2 (Or.inl ?_)
    exact (hbytes "round" "rounds").2 (by decide)
  · have hplain : ∀ step ∈ roundRows, ∀ written ∈ step.tables, IsPlainName written := by
      intro step hstep written hwritten
      obtain rfl := List.mem_singleton.1 hstep
      have hname : written = "rounds" ∨ written = "round" ∨ written = "rounds" := by
        simpa [StorageStep.tables, RowWrite.table] using hwritten
      rcases hname with rfl | rfl | rfl
      · exact hrounds
      · exact hround
      · exact hrounds
    obtain ⟨storage, hrun, htables⟩ :=
      hscans emptyMemory {} rfl Contents.plainKeys_empty roundRows hplain
    obtain ⟨rows, hscan, hsorted, hrows⟩ := htables "rounds" hrounds
    have hrow : ∀ id, (roundRows.foldlM StorageStep.run emptyMemory >>= fun storage =>
        storage.row? "rounds" id) = .ok (some emptyRow) → (id, emptyRow) ∈ rows := by
      intro id h
      rw [hrun] at h
      exact (hrows id emptyRow).2 h
    exact ⟨storage, hrun, rows, hscan, hsorted, hrow 2 (by decide +kernel),
      hrow 256 (by decide +kernel)⟩

end RecordStore
