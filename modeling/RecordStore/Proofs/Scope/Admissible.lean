import RecordStore.Proofs.Codec.Lengths
import RecordStore.Proofs.Scope.Checking
import RecordStore.Proofs.Scope.Reaching

/-!
# What the check of constraints decides

The check of a flush looks values up in indexes that it builds on the way.  What it decides can be said
without them: in the tables as they will be, with the row images laid over the visible rows
(`Scope.HoldsAfter`), no other row holds the value of a unique column, and every foreign key names a row
(`Scope.Admissible`).

The check passes exactly the images whose columns have all been checked (`Scope.checkConstraints_iff`).
Where the tables can be read, no part of the check fails for another reason, as all values have buckets, and
then it passes exactly the images that are admissible (`Scope.checkConstraints_iff_admissible`).
-/

namespace RecordStore

/-! ## Values with buckets -/

theorem exists_uniqueBucket {value : Value} (h : value.FitsLength) :
    ∃ bucket, uniqueBucket value = .ok bucket := by
  cases value with
  | text s =>
      have hwritten := encodeBytes_eq_ok.2 ⟨h, rfl⟩
      exact ⟨_, ofData_eq_ok.2 (bind_eq_ok.2 ⟨_, hwritten, rfl⟩)⟩
  | bytes b =>
      have hwritten := encodeBytes_eq_ok.2 ⟨h, rfl⟩
      exact ⟨_, ofData_eq_ok.2 (bind_eq_ok.2 ⟨_, hwritten, rfl⟩)⟩
  | _ => exact ⟨_, rfl⟩

/-- An absent column is empty, so it has a bucket too. -/
theorem fitsLength_storedColumn {columns : List (String × Value)}
    (h : ∀ entry ∈ columns, entry.2.FitsLength) (name : String) :
    (storedColumn columns name).FitsLength := by
  unfold storedColumn
  cases hfind : columns.find? fun entry => entry.1 == name with
  | none => trivial
  | some entry => exact h entry (List.mem_of_find?_eq_some hfind)

theorem getD_eq_storedColumn (columns : List (String × Value)) (name : String) :
    ((columns.find? fun entry => entry.1 == name).map (·.2)).getD .null = storedColumn columns name := by
  unfold storedColumn
  cases columns.find? fun entry => entry.1 == name with
  | none => rfl
  | some entry => rfl

/-! ## Clashes -/

/-- What stands in an index was put there. -/
theorem mem_of_indexed {entries : List (UInt64 × Value)} {index : UniqueIndex}
    (h : entries.foldlM indexValue ∅ = .ok index) {bucket : Bytes} {entry : UInt64 × Value}
    (hmem : entry ∈ (index.find? bucket).getD []) : entry ∈ entries := by
  refine foldlM_invariant (P := fun index : UniqueIndex => ∀ bucket,
    ∀ entry ∈ (index.find? bucket).getD [], entry ∈ entries) ?_ ?_ h bucket entry hmem
  · intro added hadded before after hbefore hadd bucket entry hentry
    unfold indexValue at hadd
    by_cases hnull : added.2.isNull = true
    · rw [if_pos hnull] at hadd
      cases pure_eq_ok.1 hadd
      exact hbefore bucket entry hentry
    · rw [if_neg hnull] at hadd
      obtain ⟨place, -, hadd⟩ := bind_eq_ok.1 hadd
      cases pure_eq_ok.1 hadd
      rw [SortedMap.find?_insert] at hentry
      by_cases hsame : bucket = place
      · rw [if_pos hsame] at hentry
        rcases List.mem_append.1 hentry with hold | hnew
        · exact hbefore place entry hold
        · exact List.mem_singleton.1 hnew ▸ hadded
      · rw [if_neg hsame] at hentry
        exact hbefore bucket entry hentry
  · intro bucket entry hentry
    cases hentry

/-- A value clashes with an index exactly when one of the values that were put there, under another number,
equals it. -/
theorem clashes_iff {entries : List (UInt64 × Value)} {index : UniqueIndex}
    (h : entries.foldlM indexValue ∅ = .ok index) {value : Value} (hpresent : value ≠ .null)
    {bucket : Bytes} (hbucket : uniqueBucket value = .ok bucket) (id : UInt64) :
    clashes index bucket id value = true ↔
      ∃ entry ∈ entries, entry.1 ≠ id ∧ entry.2.equals value = true := by
  constructor
  · intro hclash
    unfold clashes at hclash
    obtain ⟨entry, hentry, hequal⟩ := List.any_eq_true.1 hclash
    rw [Bool.and_eq_true, bne_iff_ne] at hequal
    exact ⟨entry, mem_of_indexed h hentry, hequal⟩
  · rintro ⟨⟨number, other⟩, hentry, hne, hequal⟩
    by_contra hclash
    rw [Bool.not_eq_true] at hclash
    have hdiffers := equals_eq_false_of_not_clashes h hentry hpresent hbucket hclash hne
    cases hdiffers.symm.trans hequal

/-- An index can be made of values that have buckets. -/
theorem exists_index {entries : List (UInt64 × Value)} (h : ∀ entry ∈ entries, entry.2.FitsLength) :
    ∃ index, entries.foldlM indexValue ∅ = .ok index := by
  have hfold : ∃ index, entries.foldlM indexValue ∅ = .ok index ∧ True := by
    refine exists_foldlM (P := fun _ => True) ?_ trivial
    intro entry hentry index _
    unfold indexValue
    by_cases hnull : entry.2.isNull = true
    · exact ⟨index, by rw [if_pos hnull]; rfl, trivial⟩
    · obtain ⟨bucket, hbucket⟩ := exists_uniqueBucket (h entry hentry)
      rw [if_neg hnull]
      exact ⟨_, bind_eq_ok.2 ⟨bucket, hbucket, rfl⟩, trivial⟩
  obtain ⟨index, hindex, -⟩ := hfold
  exact ⟨index, hindex⟩

namespace Scope

variable {env : Environment} {scope : Scope} {images : List RowImage} {image : RowImage}
  {table name : String} {id : UInt64} {column : Column} {value : Value} {columns : List (String × Value)}
  {indexes : Indexes}

/-! ## Checks that pass -/

theorem exists_indexFor (hbuilt : scope.Built env images indexes) {index : UniqueIndex}
    (h : scope.uniqueIndex env table name images = .ok index) :
    ∃ after, scope.indexFor env images indexes table name = .ok (index, after) := by
  unfold indexFor
  cases hfind : indexes.find? (table, name) with
  | some known =>
      obtain rfl := Except.ok.inj ((hbuilt table name known hfind).symm.trans h)
      exact ⟨indexes, rfl⟩
  | none => exact ⟨_, bind_eq_ok.2 ⟨index, h, rfl⟩⟩

theorem Checked.exists_checkUnique (h : scope.Checked env images image column value)
    (hbuilt : scope.Built env images indexes) :
    ∃ after, scope.checkUnique env images image column value indexes = .ok after := by
  unfold checkUnique
  by_cases hskip : (!column.unique || column.primaryKey) = true
  · rw [if_pos hskip]
    exact ⟨indexes, rfl⟩
  · rw [if_neg hskip]
    rw [Bool.or_eq_true, not_or, Bool.not_eq_true', Bool.not_eq_false, Bool.not_eq_true] at hskip
    obtain ⟨index, bucket, hindex, hbucket, hclash⟩ := h.unique hskip.1 hskip.2
    obtain ⟨after, hafter⟩ := exists_indexFor hbuilt hindex
    refine ⟨after, bind_eq_ok.2 ⟨_, hafter, bind_eq_ok.2 ⟨bucket, hbucket, ?_⟩⟩⟩
    rw [if_neg (by simp [hclash])]
    rfl

theorem Checked.checkForeignKey_eq_ok (h : scope.Checked env images image column value) :
    scope.checkForeignKey env images image column value = .ok () := by
  unfold checkForeignKey
  cases hkey : column.foreignKey with
  | none => rfl
  | some key =>
      obtain ⟨n, rfl, hpositive, hthere⟩ := h.foreignKey key hkey
      have hnegative : ¬n.toInt < 0 := by omega
      simp only [hnegative, if_false, hthere]
      rfl

theorem exists_checkColumn (hbuilt : scope.Built env images indexes)
    (h : storedColumn columns column.name ≠ .null →
      scope.Checked env images image column (storedColumn columns column.name)) :
    ∃ after, scope.checkColumn env images image columns indexes column = .ok after := by
  unfold checkColumn
  generalize storedColumn columns column.name = value at h
  by_cases hnull : value.isNull = true
  · exact ⟨indexes, by rw [if_pos hnull]; rfl⟩
  · have hchecked := h fun hvalue => hnull (by rw [hvalue]; rfl)
    obtain ⟨after, hafter⟩ := hchecked.exists_checkUnique hbuilt
    rw [if_neg hnull]
    exact ⟨after, bind_eq_ok.2 ⟨after, hafter,
      bind_eq_ok.2 ⟨(), hchecked.checkForeignKey_eq_ok, rfl⟩⟩⟩

theorem exists_checkImage (hbuilt : scope.Built env images indexes)
    (h : ∀ row columns, image.content = some (row, columns) → ∀ column ∈ image.model.columns,
      storedColumn columns column.name ≠ .null →
        scope.Checked env images image column (storedColumn columns column.name)) :
    ∃ after, scope.checkImage env images indexes image = .ok after := by
  unfold checkImage RowImage.columns?
  cases hcontent : image.content with
  | none => exact ⟨indexes, rfl⟩
  | some content =>
      obtain ⟨row, columns⟩ := content
      have hfold : ∃ after, image.model.columns.foldlM (scope.checkColumn env images image columns) indexes
          = .ok after ∧ scope.Built env images after := by
        refine exists_foldlM ?_ hbuilt
        intro column hcolumn before hbefore
        obtain ⟨after, hafter⟩ := exists_checkColumn hbefore (h row columns hcontent column hcolumn)
        exact ⟨after, hafter, (of_checkColumn hbefore hafter).1⟩
      obtain ⟨after, hafter, -⟩ := hfold
      exact ⟨after, hafter⟩

/-- The check passes exactly when every column that is not empty was checked. -/
theorem checkConstraints_iff :
    scope.checkConstraints env images = .ok () ↔
      ∀ image ∈ images, ∀ row columns, image.content = some (row, columns) →
        ∀ column ∈ image.model.columns, storedColumn columns column.name ≠ .null →
          scope.Checked env images image column (storedColumn columns column.name) := by
  constructor
  · intro h image himage row columns hcontent column hcolumn hpresent
    exact of_checkConstraints h himage hcontent hcolumn hpresent
  · intro h
    have hfold : ∃ after, images.foldlM (scope.checkImage env images) ∅ = .ok after ∧
        scope.Built env images after := by
      refine exists_foldlM ?_ fun _ _ _ hnone => by cases hnone
      intro image himage before hbefore
      obtain ⟨after, hafter⟩ := exists_checkImage hbefore (h image himage)
      exact ⟨after, hafter, (of_checkImage hbefore hafter).1⟩
    obtain ⟨after, hafter, -⟩ := hfold
    exact bind_eq_ok.2 ⟨after, hafter, rfl⟩

/-! ## Tables as they will be -/

/-- The rows of a table can be read. -/
def Readable (env : Environment) (scope : Scope) (table : String) : Prop :=
  ∃ rows, scope.visibleRows env table = .ok rows ∧
    ∀ id row, rows.find? id = some row → ∃ columns, decodeRow row.data = .ok columns

theorem readable_iff : scope.Readable env table ↔ ∃ rows ∈ (scope.visibleRows env table).toOption,
    ∀ entry ∈ rows.toList, (decodeRow entry.2.data).toOption.isSome = true := by
  have hdecodes : ∀ row : StoredRow, (decodeRow row.data).toOption.isSome = true ↔
      ∃ columns, decodeRow row.data = .ok columns := fun row => by
    simp only [Option.isSome_iff_exists, toOption_eq_some]
  constructor
  · rintro ⟨rows, hrows, hall⟩
    refine ⟨rows, toOption_eq_some.2 hrows, ?_⟩
    intro entry hentry
    exact (hdecodes entry.2).2 (hall entry.1 entry.2 (SortedMap.find?_eq_some_iff.2 hentry))
  · rintro ⟨rows, hrows, hall⟩
    refine ⟨rows, toOption_eq_some.1 hrows, ?_⟩
    intro id row hrow
    exact (hdecodes row).1 (hall (id, row) (SortedMap.find?_eq_some_iff.1 hrow))

instance : Decidable (scope.Readable env table) :=
  decidable_of_iff _ readable_iff.symm

/-- A table will hold a row with some columns: those of its image, or those of the visible row when it has
no image. -/
def HoldsAfter (env : Environment) (scope : Scope) (images : List RowImage) (table : String)
    (id : UInt64) (columns : List (String × Value)) : Prop :=
  (∃ image ∈ images, imageKey image = (table, id) ∧ image.columns? = some columns) ∨
  ((∀ image ∈ images, imageKey image ≠ (table, id)) ∧
    ∃ row, scope.visibleRow env table id = .ok (some row) ∧ decodeRow row.data = .ok columns)

/-- In the tables as they will be, no other row holds the value that an image has in a unique column, and the
value of a foreign key names a row. -/
structure Obeys (env : Environment) (scope : Scope) (images : List RowImage) (image : RowImage)
    (column : Column) (value : Value) : Prop where
  unique : column.unique = true → column.primaryKey = false → ∀ id others, id ≠ image.id →
    scope.HoldsAfter env images image.model.tableName id others →
      (storedColumn others column.name).equals value = false
  foreignKey : ∀ key, column.foreignKey = some key → ∃ n : Int64, value = .integer n ∧
    0 ≤ n.toInt ∧ ∃ others, scope.HoldsAfter env images key.table n.toUInt64 others

/-- All that the images write obeys the constraints, where it is not empty. -/
def Admissible (env : Environment) (scope : Scope) (images : List RowImage) : Prop :=
  ∀ image ∈ images, ∀ columns, image.columns? = some columns →
    ∀ column ∈ image.model.columns, storedColumn columns column.name ≠ .null →
      scope.Obeys env images image column (storedColumn columns column.name)

theorem Readable.exists_columnValues (h : scope.Readable env table) (name : String) :
    ∃ values, scope.columnValues env table name = .ok values ∧
      ∀ id value, values.find? id = some value ↔ ∃ row columns,
        scope.visibleRow env table id = .ok (some row) ∧ decodeRow row.data = .ok columns ∧
          value = storedColumn columns name := by
  obtain ⟨rows, hrows, hdecodes⟩ := h
  have hfold : ∃ values, rows.toList.foldlM (fun values row => do
        let value ← Error.ofData (getColumn row.2.data name)
        return values.insert row.1 (value.getD .null)) (∅ : SortedMap UInt64 Value) = .ok values ∧
      ∀ id value, values.find? id = some value → ∃ row, rows.find? id = some row := by
    refine exists_foldlM ?_ fun _ _ hnone => by cases hnone
    rintro ⟨number, row⟩ hmem before hbefore
    have hrow := SortedMap.find?_eq_some_iff.2 hmem
    obtain ⟨columns, hcolumns⟩ := hdecodes number row hrow
    refine ⟨_, bind_eq_ok.2 ⟨_, ofData_eq_ok.2 (getColumn_of_decodeRow hcolumns name), rfl⟩, ?_⟩
    intro id value hfind
    rcases SortedMap.find?_insert_eq_some.1 hfind with ⟨hsame, -⟩ | ⟨-, hold⟩
    · exact ⟨row, hsame ▸ hrow⟩
    · exact hbefore id value hold
  obtain ⟨values, hvalues, hthere⟩ := hfold
  have hcolumn : scope.columnValues env table name = .ok values := bind_eq_ok.2 ⟨rows, hrows, hvalues⟩
  -- Conversely, each visible row has its value under its number.
  have hread : ∀ id row columns, scope.visibleRow env table id = .ok (some row) →
      decodeRow row.data = .ok columns → values.find? id = some (storedColumn columns name) := by
    intro id row columns hrow hcolumns
    obtain ⟨found, hfound, hfind⟩ := find?_columnValues hcolumn hrow
    rw [getColumn_of_decodeRow hcolumns] at hfound
    cases hfound
    rw [hfind, getD_eq_storedColumn]
  refine ⟨values, hcolumn, ?_⟩
  intro id value
  constructor
  · intro hfind
    obtain ⟨row, hrow⟩ := hthere id value hfind
    obtain ⟨columns, hcolumns⟩ := hdecodes id row hrow
    have hvisible : scope.visibleRow env table id = .ok (some row) := hrow ▸ find?_visibleRows hrows id
    exact ⟨row, columns, hvisible, hcolumns,
      Option.some.inj (hfind.symm.trans (hread id row columns hvisible hcolumns))⟩
  · rintro ⟨row, columns, hvisible, hcolumns, rfl⟩
    exact hread id row columns hvisible hcolumns

section

variable (hdistinct : (images.map imageKey).Nodup)

include hdistinct

/-- Laid over the stored forms of a column, the images give those of the rows as they will be. -/
theorem mem_overlaid_iff {values : SortedMap UInt64 Value}
    (hvalues : ∀ id value, values.find? id = some value ↔ ∃ row columns,
      scope.visibleRow env table id = .ok (some row) ∧ decodeRow row.data = .ok columns ∧
        value = storedColumn columns name) :
    (id, value) ∈ (images.foldl (overlayImage table name) values).toList ↔
      ∃ columns, scope.HoldsAfter env images table id columns ∧ value = storedColumn columns name := by
  rw [← SortedMap.find?_eq_some_iff]
  rcases foldl_images images ∅ values table name id with
    ⟨image, himage, hkey, -, hvalue⟩ | ⟨hother, -, hvalue⟩
  · rw [hvalue, Option.map_eq_some_iff]
    constructor
    · rintro ⟨content, hcontent, rfl⟩
      exact ⟨content.2, Or.inl ⟨image, himage, hkey, by rw [RowImage.columns?, hcontent]; rfl⟩, rfl⟩
    · rintro ⟨columns, ⟨other, hmem, hsame, hcolumns⟩ | ⟨hnone, -⟩, rfl⟩
      · -- A row has one image.
        obtain rfl := List.inj_on_of_nodup_map hdistinct hmem himage (hsame.trans hkey.symm)
        obtain ⟨content, hcontent, rfl⟩ := Option.map_eq_some_iff.1 hcolumns
        exact ⟨content, hcontent, rfl⟩
      · exact absurd hkey (hnone image himage)
  · rw [hvalue, hvalues]
    constructor
    · rintro ⟨row, columns, hrow, hcolumns, rfl⟩
      exact ⟨columns, Or.inr ⟨hother, row, hrow, hcolumns⟩, rfl⟩
    · rintro ⟨columns, ⟨image, himage, hkey, -⟩ | ⟨-, row, hrow, hcolumns⟩, rfl⟩
      · exact absurd hkey (hother image himage)
      · exact ⟨row, columns, hrow, hcolumns, rfl⟩

/-- Whether a row will be there can be told when its table can be read. -/
theorem Readable.rowWillBe (h : scope.Readable env table) (id : UInt64) :
    ∃ found, scope.rowWillBe env table id images = .ok found ∧
      (found = true ↔ ∃ columns, scope.HoldsAfter env images table id columns) := by
  unfold Scope.rowWillBe
  cases hfind : images.find? fun image => image.id == id && image.model.tableName == table with
  | some image =>
      have himage := List.mem_of_find?_eq_some hfind
      have hkey := List.find?_some hfind
      rw [Bool.and_eq_true, beq_iff_eq, beq_iff_eq] at hkey
      have hkey' : imageKey image = (table, id) := by rw [imageKey, hkey.1, hkey.2]
      refine ⟨_, rfl, ?_⟩
      constructor
      · intro hsome
        obtain ⟨content, hcontent⟩ := Option.isSome_iff_exists.1 hsome
        exact ⟨content.2, Or.inl ⟨image, himage, hkey', by rw [RowImage.columns?, hcontent]; rfl⟩⟩
      · rintro ⟨columns, ⟨other, hmem, hsame, hcolumns⟩ | ⟨hnone, -⟩⟩
        · -- A row has one image, so the one that was come upon first is the only one.
          obtain rfl := List.inj_on_of_nodup_map hdistinct hmem himage (hsame.trans hkey'.symm)
          obtain ⟨content, hcontent, -⟩ := Option.map_eq_some_iff.1 hcolumns
          rw [hcontent]
          rfl
        · exact absurd hkey' (hnone image himage)
  | none =>
      have hother : ∀ image ∈ images, imageKey image ≠ (table, id) := by
        intro image himage hkey
        have hdiffers := List.find?_eq_none.1 hfind image himage
        cases hkey
        simp at hdiffers
      obtain ⟨rows, hrows, hdecodes⟩ := h
      have hvisible := find?_visibleRows hrows id
      refine ⟨_, bind_eq_ok.2 ⟨_, hvisible, rfl⟩, ?_⟩
      constructor
      · intro hsome
        obtain ⟨row, hrow⟩ := Option.isSome_iff_exists.1 hsome
        obtain ⟨columns, hcolumns⟩ := hdecodes id row hrow
        exact ⟨columns, Or.inr ⟨hother, row, hrow ▸ hvisible, hcolumns⟩⟩
      · rintro ⟨columns, ⟨image, himage, hkey, -⟩ | ⟨-, row, hrow, -⟩⟩
        · exact absurd hkey (hother image himage)
        · rw [Except.ok.inj (hvisible.symm.trans hrow)]
          rfl

section

variable (hfits : ∀ image ∈ images, ∀ columns, image.columns? = some columns →
  ∀ entry ∈ columns, entry.2.FitsLength)

include hfits

omit hdistinct in
theorem HoldsAfter.fitsLength (h : scope.HoldsAfter env images table id columns) :
    ∀ entry ∈ columns, entry.2.FitsLength := by
  rcases h with ⟨image, himage, -, hcolumns⟩ | ⟨-, row, -, hcolumns⟩
  · exact hfits image himage columns hcolumns
  · exact fitsLength_of_decodeRow hcolumns

/-- In a table that can be read, a column has an index, and a value clashes with it exactly when another row
will hold a value that equals it. -/
theorem Readable.exists_uniqueIndex (h : scope.Readable env table) (name : String) :
    ∃ index, scope.uniqueIndex env table name images = .ok index ∧
      ∀ value bucket id, value ≠ .null → uniqueBucket value = .ok bucket →
        (clashes index bucket id value = true ↔ ∃ other columns, other ≠ id ∧
          scope.HoldsAfter env images table other columns ∧
            (storedColumn columns name).equals value = true) := by
  obtain ⟨values, hvalues, hiff⟩ := h.exists_columnValues name
  have hentries : ∀ entry ∈ (images.foldl (overlayImage table name) values).toList,
      entry.2.FitsLength := by
    rintro ⟨number, stored⟩ hentry
    obtain ⟨columns, hholds, rfl⟩ := (mem_overlaid_iff hdistinct hiff).1 hentry
    exact fitsLength_storedColumn (hholds.fitsLength hfits) name
  obtain ⟨index, hindex⟩ := exists_index hentries
  refine ⟨index, bind_eq_ok.2 ⟨values, hvalues, hindex⟩, ?_⟩
  intro value bucket id hpresent hbucket
  rw [clashes_iff hindex hpresent hbucket id]
  constructor
  · rintro ⟨⟨other, stored⟩, hentry, hne, hequal⟩
    obtain ⟨columns, hholds, rfl⟩ := (mem_overlaid_iff hdistinct hiff).1 hentry
    exact ⟨other, columns, hne, hholds, hequal⟩
  · rintro ⟨other, columns, hne, hholds, hequal⟩
    exact ⟨(other, _), (mem_overlaid_iff hdistinct hiff).2 ⟨columns, hholds, rfl⟩, hne, hequal⟩

/-- What the check of a column decides. -/
theorem checked_iff_obeys (hpresent : value ≠ .null) (hvalue : value.FitsLength)
    (htable : scope.Readable env image.model.tableName)
    (htarget : ∀ key, column.foreignKey = some key → scope.Readable env key.table) :
    scope.Checked env images image column value ↔ scope.Obeys env images image column value := by
  obtain ⟨index, hindex, hclashes⟩ := htable.exists_uniqueIndex hdistinct hfits column.name
  obtain ⟨bucket, hbucket⟩ := exists_uniqueBucket hvalue
  have hclash := hclashes value bucket image.id hpresent hbucket
  constructor
  · intro h
    refine ⟨?_, ?_⟩
    · intro hunique hprimary id others hne hholds
      obtain ⟨index', bucket', hindex', hbucket', hfree⟩ := h.unique hunique hprimary
      obtain rfl := Except.ok.inj (hindex.symm.trans hindex')
      obtain rfl := Except.ok.inj (hbucket.symm.trans hbucket')
      by_contra hequal
      rw [hclash.2 ⟨id, others, hne, hholds, Bool.not_eq_false _ ▸ hequal⟩] at hfree
      cases hfree
    · intro key hkey
      obtain ⟨n, hn, hpositive, hthere⟩ := h.foreignKey key hkey
      obtain ⟨found, hfound, hiff⟩ := (htarget key hkey).rowWillBe hdistinct n.toUInt64
      cases hfound.symm.trans hthere
      exact ⟨n, hn, hpositive, hiff.1 rfl⟩
  · rintro ⟨hunique, hforeign⟩
    refine ⟨?_, ?_⟩
    · intro hcolumn hprimary
      refine ⟨index, bucket, hindex, hbucket, ?_⟩
      by_contra hequal
      rw [Bool.not_eq_false] at hequal
      obtain ⟨other, columns, hne, hholds, htrue⟩ := hclash.1 hequal
      cases (hunique hcolumn hprimary other columns hne hholds).symm.trans htrue
    · intro key hkey
      obtain ⟨n, hn, hpositive, hholds⟩ := hforeign key hkey
      obtain ⟨found, hfound, hiff⟩ := (htarget key hkey).rowWillBe hdistinct n.toUInt64
      exact ⟨n, hn, hpositive, hiff.2 hholds ▸ hfound⟩

/-- Where the tables can be read, the check passes exactly the images that are admissible. -/
theorem checkConstraints_iff_admissible
    (htables : ∀ image ∈ images, scope.Readable env image.model.tableName ∧
      ∀ column ∈ image.model.columns, ∀ key, column.foreignKey = some key →
        scope.Readable env key.table) :
    scope.checkConstraints env images = .ok () ↔ scope.Admissible env images := by
  have hcolumn : ∀ image ∈ images, ∀ row columns, image.content = some (row, columns) →
      ∀ column ∈ image.model.columns, storedColumn columns column.name ≠ .null →
        (scope.Checked env images image column (storedColumn columns column.name) ↔
          scope.Obeys env images image column (storedColumn columns column.name)) := by
    intro image himage row columns hcontent column hcolumn hpresent
    have hcolumns : image.columns? = some columns := by rw [RowImage.columns?, hcontent]; rfl
    have hstored := fitsLength_storedColumn (hfits image himage columns hcolumns) column.name
    exact checked_iff_obeys hdistinct hfits hpresent hstored (htables image himage).1
      ((htables image himage).2 column hcolumn)
  rw [checkConstraints_iff]
  constructor
  · intro h image himage columns hcolumns column hmem hpresent
    obtain ⟨⟨row, _⟩, hcontent, rfl⟩ := Option.map_eq_some_iff.1 hcolumns
    exact (hcolumn image himage row _ hcontent column hmem hpresent).1
      (h image himage row _ hcontent column hmem hpresent)
  · intro h image himage row columns hcontent column hmem hpresent
    have hcolumns : image.columns? = some columns := by rw [RowImage.columns?, hcontent]; rfl
    exact (hcolumn image himage row columns hcontent column hmem hpresent).2
      (h image himage columns hcolumns column hmem hpresent)

end

end

/-! ## Images that a flush makes -/

/-- What a flush writes was encoded. -/
theorem Images.fitsLength {handles : List Handle} (h : Images env scope handles images) :
    ∀ image ∈ images, ∀ columns, image.columns? = some columns → ∀ entry ∈ columns, entry.2.FitsLength := by
  intro image himage columns hcolumns
  obtain ⟨content, hcontent, rfl⟩ := Option.map_eq_some_iff.1 hcolumns
  obtain ⟨_, _, -, hmade⟩ := h.made image himage
  -- A deleted row has no columns; the other two kinds of images hold encoded ones.
  cases hmade with
  | inserted _ row columns _ _ _ hdata _ | updated _ row columns _ _ _ _ _ hdata _ _ _ =>
      cases hcontent
      obtain ⟨data, hentries, -⟩ := bind_eq_ok.1 (ofData_eq_ok.1 hdata)
      exact fitsLength_of_encodeEntries hentries
  | deleted => cases hcontent

/-- No row is staged while keys are given. -/
theorem assignIds_staged (env : Environment) (start : Scope) :
    (assignIds env).Ends start (fun _ after => after.staged = start.staged) fun _ => True := by
  refine ScopeM.ends_get_bind (ScopeM.ends_forM rfl ?_)
  intro handle _ scope hscope
  refine (assignId_outcome scope env handle).mono ?_ fun _ _ => trivial
  rintro _ _ (_ | ⟨_, asked, _, _, _, -, -, hasked, -, -, -⟩)
  · exact hscope
  · exact hasked.same.staged.trans hscope

/-- The images of a flush are made of values that fit, over rows that are still as they were. -/
theorem flush_images (env : Environment) (scope : Scope) :
    (do assignIds env; resolveLinks; rowImages env : ScopeM (List RowImage)).Ends scope
      (fun images made => made.staged = scope.staged ∧ ∀ image ∈ images, ∀ columns,
        image.columns? = some columns → ∀ entry ∈ columns, entry.2.FitsLength) fun _ => True := by
  refine ScopeM.ends_bind (assignIds_staged env scope) ?_
  intro _ numbered hnumbered
  refine ScopeM.ends_bind ((resolveLinks_steady env numbered).mono
    (fun _ _ hfilled => hfilled) fun _ _ => trivial) ?_
  intro _ filled hfilled
  refine (rowImages_made env filled).mono ?_ fun _ _ => trivial
  rintro images made ⟨hmade, himages⟩
  exact ⟨(hmade.staged.trans hfilled.staged).trans hnumbered, himages.fitsLength⟩

section

variable {other : Scope} (h : other.staged = scope.staged)

include h

theorem readable_congr : other.Readable env table ↔ scope.Readable env table := by
  unfold Readable visibleRows
  rw [h]

theorem holdsAfter_congr :
    other.HoldsAfter env images table id columns ↔ scope.HoldsAfter env images table id columns := by
  unfold HoldsAfter visibleRow
  rw [h]

theorem Obeys.congr (hother : other.Obeys env images image column value) :
    scope.Obeys env images image column value where
  unique hunique hprimary id others hne hholds :=
    hother.unique hunique hprimary id others hne ((holdsAfter_congr h).2 hholds)
  foreignKey key hkey := by
    obtain ⟨n, hn, hpositive, others, hholds⟩ := hother.foreignKey key hkey
    exact ⟨n, hn, hpositive, others, (holdsAfter_congr h).1 hholds⟩

theorem admissible_congr : other.Admissible env images ↔ scope.Admissible env images := by
  constructor
  · intro hother image himage columns hcolumns column hcolumn hpresent
    exact (hother image himage columns hcolumns column hcolumn hpresent).congr h
  · intro hscope image himage columns hcolumns column hcolumn hpresent
    exact (hscope image himage columns hcolumns column hcolumn hpresent).congr h.symm

end

end Scope

end RecordStore
