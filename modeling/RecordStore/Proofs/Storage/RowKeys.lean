import RecordStore.Proofs.Bytes
import RecordStore.Proofs.SortedMap
import RecordStore.Storage.Contents

/-!
# Keys of rows and scans

Different rows have different keys (`rowKey_inj`), whatever the names of their tables contain.  A
key that belongs to a table and has a number in its place is the key of that number, so a scan of a
table finds exactly the rows of the table (`Contents.ok_mem_scan_iff`).
-/

namespace RecordStore

/-! ## Keys -/

theorem tableKey_injective {a b : String} (h : tableKey a = tableKey b) : a = b :=
  textBytes_injective (List.append_cancel_right h)

theorem bigEndian_rowId_injective {a b : UInt64}
    (h : bigEndian rowIdSize a.toNat = bigEndian rowIdSize b.toNat) : a = b := by
  have hback := congrArg ofBigEndian h
  rw [ofBigEndian_bigEndian a.toNat_lt, ofBigEndian_bigEndian b.toNat_lt] at hback
  exact UInt64.toNat_inj.1 hback

/-- All numbers take the same room in keys, so a key tells its table and its number apart. -/
theorem rowKey_inj {a b : String} {i j : UInt64} : rowKey a i = rowKey b j ↔ a = b ∧ i = j := by
  constructor
  · intro h
    -- The numbers have the same width, so both keys are cut at the same distance from the end.
    have hparts := List.append_inj' h (by simp)
    exact ⟨tableKey_injective hparts.1, bigEndian_rowId_injective hparts.2⟩
  · rintro ⟨rfl, rfl⟩
    rfl

theorem ownsKey_rowKey (table : String) (id : UInt64) :
    Contents.ownsKey table (rowKey table id) = true := by
  unfold Contents.ownsKey rowKey
  rw [List.isPrefixOf_iff_prefix]
  exact List.prefix_append _ _

theorem rowIdOfKey?_rowKey (table : String) (id : UInt64) :
    rowIdOfKey? (rowKey table id) (tableKey table).length = some id := by
  unfold rowIdOfKey? rowKey
  rw [if_pos (by simp), List.drop_left, ofBigEndian_bigEndian id.toNat_lt, UInt64.ofNat_toNat]

/-- A key that belongs to a table and has the length of such keys is the key of its number. -/
theorem eq_rowKey_of_rowIdOfKey? {table : String} {key : Bytes} {id : UInt64}
    (howned : Contents.ownsKey table key = true)
    (hid : rowIdOfKey? key (tableKey table).length = some id) : key = rowKey table id := by
  unfold Contents.ownsKey at howned
  rcases List.isPrefixOf_iff_prefix.1 howned with ⟨number, rfl⟩
  unfold rowIdOfKey? at hid
  rw [List.drop_left, List.length_append] at hid
  by_cases hlength : (tableKey table).length + number.length = (tableKey table).length + rowIdSize
  · rw [if_pos hlength] at hid
    cases hid
    have hsize : number.reverse.length = rowIdSize := by
      rw [List.length_reverse]
      omega
    -- Eight bytes are those of the number read from them, turned round as the order is.
    have hlt := ofLittleEndian_lt number.reverse
    have hback := littleEndian_ofLittleEndian number.reverse
    rw [hsize] at hlt hback
    unfold rowKey bigEndian ofBigEndian
    rw [UInt64.toNat_ofNat_of_lt' hlt, hback, List.reverse_reverse]
  · rw [if_neg hlength] at hid
    cases hid

theorem rowIdOfKey?_eq_none_iff {table : String} {key : Bytes}
    (howned : Contents.ownsKey table key = true) :
    rowIdOfKey? key (tableKey table).length = none ↔ ∀ id, key ≠ rowKey table id := by
  constructor
  · rintro hnone id rfl
    rw [rowIdOfKey?_rowKey] at hnone
    cases hnone
  · intro hother
    cases hid : rowIdOfKey? key (tableKey table).length with
    | none => rfl
    | some id => exact absurd (eq_rowKey_of_rowIdOfKey? howned hid) (hother id)

/-! ## Scans -/

namespace Contents

/-- A scan finds exactly the rows of the table, each by its number. -/
theorem ok_mem_scan_iff {contents : Contents} {table : String} {id : UInt64} {row : StoredRow} :
    .ok (id, row) ∈ contents.scan table ↔ contents.row? table id = some row := by
  unfold scan row?
  rw [List.mem_map, SortedMap.find?_eq_some_iff]
  constructor
  · rintro ⟨⟨key, stored⟩, hentry, heq⟩
    rcases List.mem_filter.1 hentry with ⟨hmem, howned⟩
    cases hid : rowIdOfKey? key (tableKey table).length with
    | none =>
        simp only [hid] at heq
        cases heq
    | some number =>
        simp only [hid] at heq
        cases heq
        rw [← eq_rowKey_of_rowIdOfKey? howned hid]
        exact hmem
  · intro hmem
    refine ⟨(rowKey table id, row), List.mem_filter.2 ⟨hmem, ownsKey_rowKey table id⟩, ?_⟩
    simp only [rowIdOfKey?_rowKey]

/-- All other keys that belong to the table are malformed. -/
theorem error_mem_scan_iff {contents : Contents} {table : String} {fault : DataFault} :
    .error fault ∈ contents.scan table ↔ fault = .malformedRowKey ∧ ∃ key row,
      contents.rows.find? key = some row ∧ ownsKey table key = true ∧
        ∀ id, key ≠ rowKey table id := by
  unfold scan
  rw [List.mem_map]
  constructor
  · rintro ⟨⟨key, row⟩, hentry, heq⟩
    rcases List.mem_filter.1 hentry with ⟨hmem, howned⟩
    cases hid : rowIdOfKey? key (tableKey table).length with
    | some number =>
        simp only [hid] at heq
        cases heq
    | none =>
        simp only [hid] at heq
        cases heq
        refine ⟨rfl, key, row, SortedMap.find?_eq_some_iff.2 hmem, howned, ?_⟩
        exact (rowIdOfKey?_eq_none_iff howned).1 hid
  · rintro ⟨rfl, key, row, hrow, howned, hother⟩
    have hmem := SortedMap.find?_eq_some_iff.1 hrow
    refine ⟨(key, row), List.mem_filter.2 ⟨hmem, howned⟩, ?_⟩
    simp only [(rowIdOfKey?_eq_none_iff howned).2 hother]

end Contents

end RecordStore
