import RecordStore.Model.Compile
import RecordStore.Proofs.Outcome
import RecordStore.Proofs.Storage.RowKeys
import RecordStore.Storage.Basic

/-!
# Tables that are defined and removed

Removing a table removes its rows, its entry in the catalog and the sequence that the entry names.  So
a table starts anew after it was removed (`Contents.Vacant`), if its sequence has not moved without an
entry, and the entry names the sequence of the table (`Contents.Cataloged`).
-/

namespace RecordStore

namespace Contents

variable {contents : Contents} {table : String}

/-- The entry of a table in the catalog names its sequence, and without an entry the sequence has given
no number. -/
structure Cataloged (contents : Contents) (table : String) : Prop where
  named : ∀ schema, contents.catalog.find? table = some schema →
    schema.sequence = sequenceName table
  unused : contents.catalog.find? table = none → contents.sequenceValue (sequenceName table) = 0

/-- A table has no rows, no entry in the catalog, and its sequence has given no number. -/
structure Vacant (contents : Contents) (table : String) : Prop where
  absent : contents.catalog.find? table = none
  unused : contents.sequenceValue (sequenceName table) = 0
  empty : ∀ number, contents.row? table number = none

theorem Vacant.cataloged (h : contents.Vacant table) : contents.Cataloged table where
  named schema hschema := by
    rw [h.absent] at hschema
    cases hschema
  unused _ := h.unused

/-! ## Defining tables -/

theorem rows_foldl_defineTable (schemas : List TableSchema) (contents : Contents) :
    (schemas.foldl defineTable contents).rows = contents.rows := by
  induction schemas generalizing contents with
  | nil => rfl
  | cons schema rest ih => exact ih (contents.defineTable schema)

theorem sequences_foldl_defineTable (schemas : List TableSchema) (contents : Contents) :
    (schemas.foldl defineTable contents).sequences = contents.sequences := by
  induction schemas generalizing contents with
  | nil => rfl
  | cons schema rest ih => exact ih (contents.defineTable schema)

@[simp]
theorem row?_foldl_defineTable (schemas : List TableSchema) (contents : Contents) (table : String)
    (number : UInt64) :
    (schemas.foldl defineTable contents).row? table number = contents.row? table number := by
  unfold row?
  rw [rows_foldl_defineTable]

@[simp]
theorem sequenceValue_foldl_defineTable (schemas : List TableSchema) (contents : Contents)
    (sequence : String) :
    (schemas.foldl defineTable contents).sequenceValue sequence = contents.sequenceValue sequence := by
  unfold sequenceValue
  rw [sequences_foldl_defineTable]

/-- The entry of a table is one of those that were defined, or what it was. -/
theorem catalog_foldl_defineTable (schemas : List TableSchema) (contents : Contents) (table : String) :
    (∃ schema ∈ schemas, schema.table = table ∧
      (schemas.foldl defineTable contents).catalog.find? table = some schema) ∨
    (schemas.foldl defineTable contents).catalog.find? table = contents.catalog.find? table := by
  induction schemas generalizing contents with
  | nil => exact Or.inr rfl
  | cons schema rest ih =>
      rcases ih (contents.defineTable schema) with ⟨found, hfound, htable, hfind⟩ | hfind
      · exact Or.inl ⟨found, List.mem_cons_of_mem _ hfound, htable, hfind⟩
      · have hdefined : (contents.defineTable schema).catalog.find? table =
            if table = schema.table then some schema else contents.catalog.find? table :=
          SortedMap.find?_insert ..
        rw [List.foldl_cons, hfind, hdefined]
        by_cases hsame : table = schema.table
        · exact Or.inl ⟨schema, List.mem_cons_self, hsame.symm, if_pos hsame⟩
        · exact Or.inr (if_neg hsame)

/-- A table stays cataloged when the entries that are defined for it name its sequence. -/
theorem Cataloged.foldl_defineTable (h : contents.Cataloged table) {schemas : List TableSchema}
    (hnamed : ∀ schema ∈ schemas, schema.table = table → schema.sequence = sequenceName table) :
    (schemas.foldl Contents.defineTable contents).Cataloged table := by
  rcases catalog_foldl_defineTable schemas contents table with ⟨defined, hmem, htable, hfind⟩ | hfind
  · constructor
    case named =>
      intro schema hschema
      obtain rfl := Option.some.inj (hfind.symm.trans hschema)
      exact hnamed defined hmem htable
    case unused =>
      intro hnone
      exact absurd (hfind.symm.trans hnone) (Option.some_ne_none _)
  · constructor
    case named =>
      intro schema hschema
      exact h.named schema (hfind.symm.trans hschema)
    case unused =>
      intro hnone
      rw [sequenceValue_foldl_defineTable]
      exact h.unused (hfind.symm.trans hnone)

/-! ## Removing tables -/

theorem catalog_removeTable (contents : Contents) (removed table : String) :
    (contents.removeTable removed).catalog.find? table =
      if table = removed then none else contents.catalog.find? table :=
  SortedMap.find?_erase ..

/-- A sequence is at its start or where it was. -/
theorem sequenceValue_removeTable (contents : Contents) (removed sequence : String) :
    (contents.removeTable removed).sequenceValue sequence = 0 ∨
      (contents.removeTable removed).sequenceValue sequence = contents.sequenceValue sequence := by
  unfold removeTable sequenceValue
  cases contents.catalog.find? removed with
  | none => exact Or.inr rfl
  | some schema =>
      simp only [SortedMap.find?_erase]
      by_cases hsame : sequence = schema.sequence
      · rw [if_pos hsame]
        exact Or.inl rfl
      · rw [if_neg hsame]
        exact Or.inr rfl

theorem row?_removeTable (contents : Contents) (removed table : String) (number : UInt64) :
    (contents.removeTable removed).row? table number = none ∨
      (contents.removeTable removed).row? table number = contents.row? table number := by
  have hfilter : (contents.removeTable removed).row? table number =
      (contents.row? table number).filter fun _ => !ownsKey removed (rowKey table number) :=
    SortedMap.find?_filter ..
  rw [hfilter]
  cases contents.row? table number with
  | none => exact Or.inl rfl
  | some row =>
      by_cases howned : ownsKey removed (rowKey table number) = true
      · exact Or.inl (by simp [Option.filter, howned])
      · exact Or.inr (by simp [Option.filter, howned])

theorem row?_removeTable_self (contents : Contents) (table : String) (number : UInt64) :
    (contents.removeTable table).row? table number = none := by
  have hfilter : (contents.removeTable table).row? table number =
      (contents.row? table number).filter fun _ => !ownsKey table (rowKey table number) :=
    SortedMap.find?_filter ..
  rw [hfilter, ownsKey_rowKey]
  cases contents.row? table number with
  | none => rfl
  | some row => rfl

theorem Cataloged.vacant_removeTable (h : contents.Cataloged table) :
    (contents.removeTable table).Vacant table where
  absent := by rw [catalog_removeTable, if_pos rfl]
  unused := by
    unfold removeTable sequenceValue
    cases hfind : contents.catalog.find? table with
    | none => exact h.unused hfind
    | some schema =>
        simp only [h.named schema hfind, SortedMap.find?_erase, if_true]
        rfl
  empty := contents.row?_removeTable_self table

theorem Cataloged.removeTable (h : contents.Cataloged table) (removed : String) :
    (contents.removeTable removed).Cataloged table := by
  by_cases hsame : table = removed
  · subst hsame
    exact h.vacant_removeTable.cataloged
  · constructor
    case named =>
      intro schema hschema
      rw [catalog_removeTable, if_neg hsame] at hschema
      exact h.named schema hschema
    case unused =>
      intro hnone
      rw [catalog_removeTable, if_neg hsame] at hnone
      rcases sequenceValue_removeTable contents removed (sequenceName table) with hzero | hkept
      · exact hzero
      · exact hkept.trans (h.unused hnone)

theorem Vacant.removeTable (h : contents.Vacant table) (removed : String) :
    (contents.removeTable removed).Vacant table where
  absent := by
    rw [catalog_removeTable, h.absent]
    exact ite_self none
  unused := by
    rcases sequenceValue_removeTable contents removed (sequenceName table) with hzero | hkept
    · exact hzero
    · exact hkept.trans h.unused
  empty number := by
    rcases row?_removeTable contents removed table number with hnone | hkept
    · exact hnone
    · exact hkept.trans (h.empty number)

theorem Vacant.foldl_removeTable (h : contents.Vacant table) (tables : List String) :
    (tables.foldl Contents.removeTable contents).Vacant table := by
  induction tables generalizing contents with
  | nil => exact h
  | cons removed rest ih => exact ih (h.removeTable removed)

/-- A table starts anew when it is among those that are removed. -/
theorem vacant_foldl_removeTable {tables : List String} (hmem : table ∈ tables)
    (h : contents.Cataloged table) : (tables.foldl removeTable contents).Vacant table := by
  induction tables generalizing contents with
  | nil => cases hmem
  | cons removed rest ih =>
      rcases List.mem_cons.1 hmem with rfl | hlater
      · exact h.vacant_removeTable.foldl_removeTable rest
      · exact ih hlater (h.removeTable removed)

end Contents

/-! ## Storages -/

namespace Storage

/-- A storage that can be read holds what it was given. -/
theorem read_eq_ok {storage : Storage} {contents : Contents} (h : storage.read = .ok contents) :
    contents = storage.contents.getD {} := by
  unfold read at h
  by_cases hexists : storage.exists? = true
  · rw [if_pos hexists] at h
    exact (Except.ok.inj h).symm
  · rw [if_neg hexists] at h
    cases h

theorem row?_eq_ok {storage : Storage} {table : String} {number : UInt64} {row : Option StoredRow} :
    storage.row? table number = .ok row ↔
      ∃ contents, storage.read = .ok contents ∧ contents.row? table number = row := by
  unfold row?
  rw [bind_eq_ok]
  exact exists_congr fun contents => and_congr_right fun _ => pure_eq_ok

theorem sequenceValue_eq_ok {storage : Storage} {sequence : String} {value : Nat} :
    storage.sequenceValue sequence = .ok value ↔
      ∃ contents, storage.read = .ok contents ∧ contents.sequenceValue sequence = value := by
  unfold sequenceValue
  rw [bind_eq_ok]
  exact exists_congr fun contents => and_congr_right fun _ => pure_eq_ok

theorem table?_eq_ok {storage : Storage} {table : String} {schema : Option TableSchema} :
    storage.table? table = .ok schema ↔
      ∃ contents, storage.read = .ok contents ∧ contents.catalog.find? table = schema := by
  unfold table?
  rw [bind_eq_ok]
  exact exists_congr fun contents => and_congr_right fun _ => pure_eq_ok

theorem change_eq_ok {storage changed : Storage} {f : Contents → Contents} :
    storage.change f = .ok changed ↔
      ∃ contents, storage.read = .ok contents ∧ changed = { storage with contents := some (f contents) } := by
  unfold change
  cases storage.read with
  | error error => simp [bind, Except.bind]
  | ok contents => simp [bind, Except.bind, pure, Except.pure, eq_comm]

/-- A storage that holds something can be read. -/
theorem read_of_contents (storage : Storage) (contents : Contents) :
    ({ storage with contents := some contents } : Storage).read = .ok contents := by
  unfold read exists?
  rw [if_pos (by simp)]
  rfl

end Storage

end RecordStore
