import RecordStore.Proofs.Model.Rows
import RecordStore.Proofs.Scope.Settling
import RecordStore.Proofs.Scope.Staging
import RecordStore.Proofs.Value.Equality

/-!
# Checked row images

What it means that row images have passed the check: no other row that will be there holds the value of
a unique column, and every foreign key names a row that will be there (`Scope.Checked`).  The check
looks unique values up in indexes by buckets; equal values share a bucket, so no row is missed.
-/

namespace RecordStore

/-! ## Indexes of unique columns -/

theorem uniqueBucket_eq_of_equalsScalar {a b : Value} (h : Value.equalsScalar a b = true) :
    uniqueBucket a = uniqueBucket b := by
  unfold Value.equalsScalar at h
  split at h
  case h_1 => rfl
  case h_3 x y =>
    show Error.ofData (Value.float x.forgetZeroSign).encode = _
    rw [Float64.forgetZeroSign_eq h]
    rfl
  case h_7 x y =>
    show Error.ofData (Value.decimal x.normalize).encode = _
    rw [Decimal.normalize_eq h]
    rfl
  case h_11 => cases h
  all_goals rw [beq_iff_eq.1 h]

/-- Equal values share a bucket: containers are equal only when they are of one shape and one size. -/
theorem uniqueBucket_eq {a b : Value} (h : a.equals b = true) : uniqueBucket a = uniqueBucket b := by
  cases hkind : a.containerKind? with
  | none =>
      rw [Value.equals_of_scalar hkind] at h
      exact uniqueBucket_eq_of_equalsScalar h
  | some _ =>
      cases a with
      | list xs | tuple xs =>
          cases b <;> unfold Value.equals at h <;> try cases h
          have hlength := (Value.equalsItems_iff.1 h).length_eq
          simp only [uniqueBucket, Value.typeName, hlength]
      | set xs | frozenSet xs =>
          cases b <;> unfold Value.equals at h <;> try cases h
          have hlength := (Value.equals_sets_iff.1 h).1
          simp only [uniqueBucket, Value.typeName, hlength]
      | mapping xs =>
          cases b <;> unfold Value.equals at h <;> try cases h
          have hlength := (Value.equalsEntries_iff.1 h).length_eq
          simp only [uniqueBucket, hlength]
      | _ => cases hkind

/-- Everything that is not empty stands in the bucket of its value. -/
theorem mem_indexed {entries : List (UInt64 × Value)} {index : UniqueIndex}
    (h : entries.foldlM indexValue ∅ = .ok index) {entry : UInt64 × Value} (hmem : entry ∈ entries)
    (hpresent : entry.2 ≠ .null) :
    ∃ bucket, uniqueBucket entry.2 = .ok bucket ∧ entry ∈ (index.find? bucket).getD [] := by
  have hnotNull : ∀ other : UInt64 × Value, other.2 ≠ .null → ¬other.2.isNull = true := by
    rintro ⟨id, value⟩ hother
    cases value with
    | null => exact absurd rfl hother
    | _ => exact Bool.false_ne_true
  refine foldlM_of_mem (P := fun _ => True) (Q := fun entry index => entry.2 ≠ .null →
    ∃ bucket, uniqueBucket entry.2 = .ok bucket ∧ entry ∈ (index.find? bucket).getD [])
    trivial ?_ ?_ h entry hmem hpresent
  · intro other _ before after _ hadd
    refine ⟨trivial, ?_⟩
    intro hother
    unfold indexValue at hadd
    rw [if_neg (hnotNull other hother)] at hadd
    obtain ⟨bucket, hbucket, hadd⟩ := bind_eq_ok.1 hadd
    cases pure_eq_ok.1 hadd
    refine ⟨bucket, hbucket, ?_⟩
    rw [SortedMap.find?_insert, if_pos rfl]
    exact List.mem_append_right _ (List.mem_singleton_self other)
  · intro other _ kept _ before after hadd hkept hpresent
    obtain ⟨bucket, hbucket, hin⟩ := hkept hpresent
    refine ⟨bucket, hbucket, ?_⟩
    unfold indexValue at hadd
    by_cases hnull : other.2.isNull = true
    · rw [if_pos hnull] at hadd
      cases pure_eq_ok.1 hadd
      exact hin
    · rw [if_neg hnull] at hadd
      obtain ⟨added, -, hadd⟩ := bind_eq_ok.1 hadd
      cases pure_eq_ok.1 hadd
      -- A bucket only grows.
      rw [SortedMap.find?_insert]
      by_cases hsame : bucket = added
      · rw [if_pos hsame, ← hsame]
        exact List.mem_append_left _ hin
      · rw [if_neg hsame]
        exact hin

/-- A value that clashes with nothing in an index is not equal to what another row holds. -/
theorem equals_eq_false_of_not_clashes {entries : List (UInt64 × Value)} {index : UniqueIndex}
    (hindex : entries.foldlM indexValue ∅ = .ok index) {number id : UInt64} {other value : Value}
    (hother : (number, other) ∈ entries) (hpresent : value ≠ .null) {bucket : Bytes}
    (hbucket : uniqueBucket value = .ok bucket) (hclash : clashes index bucket id value = false) (hne : number ≠ id) :
    other.equals value = false := by
  by_contra htrue
  rw [Bool.not_eq_false] at htrue
  have hnotNull : other ≠ .null := by
    rintro rfl
    cases value with
    | null => exact hpresent rfl
    | _ => cases htrue
  obtain ⟨shared, hshared, hin⟩ := mem_indexed hindex hother hnotNull
  rw [uniqueBucket_eq htrue, hbucket] at hshared
  cases hshared
  unfold clashes at hclash
  rw [List.any_eq_false] at hclash
  refine hclash _ hin ?_
  simp [hne, htrue]

namespace Scope

variable {env : Environment} {scope : Scope} {images : List RowImage} {image : RowImage}
  {table name : String} {column : Column} {value : Value}

/-- The stored forms of a column are those in the visible rows. -/
theorem find?_columnValues {values : SortedMap UInt64 Value}
    (h : scope.columnValues env table name = .ok values) {id : UInt64} {row : StoredRow}
    (hrow : scope.visibleRow env table id = .ok (some row)) :
    ∃ found, getColumn row.data name = .ok found ∧ values.find? id = some (found.getD .null) := by
  unfold columnValues at h
  obtain ⟨rows, hrows, h⟩ := bind_eq_ok.1 h
  have hfind : rows.find? id = some row :=
    Except.ok.inj ((find?_visibleRows hrows id).symm.trans hrow)
  have hmem : (id, row) ∈ rows.toList := SortedMap.find?_eq_some_iff.1 hfind
  refine foldlM_of_mem (P := fun _ => True) (Q := fun (entry : UInt64 × StoredRow) values =>
    ∃ found, getColumn entry.2.data name = .ok found ∧ values.find? entry.1 = some (found.getD .null))
    trivial ?_ ?_ h (id, row) hmem
  · intro entry _ before after _ hadd
    obtain ⟨found, hfound, hadd⟩ := bind_eq_ok.1 hadd
    cases pure_eq_ok.1 hadd
    refine ⟨trivial, found, ofData_eq_ok.1 hfound, ?_⟩
    rw [SortedMap.find?_insert, if_pos rfl]
  · rintro entry hentry kept hkept before after hadd ⟨found, hfound, hvalue⟩
    obtain ⟨added, hadded, hadd⟩ := bind_eq_ok.1 hadd
    cases pure_eq_ok.1 hadd
    refine ⟨found, hfound, ?_⟩
    rw [SortedMap.find?_insert]
    by_cases hsame : kept.1 = entry.1
    · -- Rows have different numbers, so this is the same row.
      obtain rfl := List.inj_on_of_nodup_map rows.sorted.nodup_keys hkept hentry hsame
      rw [if_pos rfl]
      rw [ofData_eq_ok.1 hadded] at hfound
      cases hfound
      rfl
    · rw [if_neg hsame]
      exact hvalue

/-! ## What is checked -/

/-- What was checked of the value of a column in a row image. -/
structure Checked (env : Environment) (scope : Scope) (images : List RowImage) (image : RowImage)
    (column : Column) (value : Value) : Prop where
  unique : column.unique = true → column.primaryKey = false → ∃ index bucket,
    scope.uniqueIndex env image.model.tableName column.name images = .ok index ∧
      uniqueBucket value = .ok bucket ∧ clashes index bucket image.id value = false
  foreignKey : ∀ key, column.foreignKey = some key → ∃ n : Int64, value = .integer n ∧
    0 ≤ n.toInt ∧ scope.rowWillBe env key.table n.toUInt64 images = .ok true

/-- The indexes that are kept are those that would be built. -/
def Built (env : Environment) (scope : Scope) (images : List RowImage) (indexes : Indexes) : Prop :=
  ∀ table column index, indexes.find? (table, column) = some index →
    scope.uniqueIndex env table column images = .ok index

theorem of_indexFor {indexes after : Indexes} {index : UniqueIndex}
    (hbuilt : scope.Built env images indexes)
    (h : scope.indexFor env images indexes table name = .ok (index, after)) :
    scope.uniqueIndex env table name images = .ok index ∧ scope.Built env images after := by
  unfold indexFor at h
  cases hfind : indexes.find? (table, name) with
  | some known =>
      simp only [hfind] at h
      cases h
      exact ⟨hbuilt table name index hfind, hbuilt⟩
  | none =>
      simp only [hfind] at h
      obtain ⟨made, hmade, h⟩ := bind_eq_ok.1 h
      cases pure_eq_ok.1 h
      refine ⟨hmade, ?_⟩
      intro table' name' other hother
      rcases SortedMap.find?_insert_eq_some.1 hother with ⟨hsame, rfl⟩ | ⟨-, hold⟩
      · cases hsame
        exact hmade
      · exact hbuilt table' name' other hold

theorem of_checkUnique {indexes after : Indexes} (hbuilt : scope.Built env images indexes)
    (h : scope.checkUnique env images image column value indexes = .ok after) :
    scope.Built env images after ∧
      (column.unique = true → column.primaryKey = false → ∃ index bucket,
        scope.uniqueIndex env image.model.tableName column.name images = .ok index ∧
          uniqueBucket value = .ok bucket ∧ clashes index bucket image.id value = false) := by
  unfold checkUnique at h
  by_cases hskip : (!column.unique || column.primaryKey) = true
  · rw [if_pos hskip] at h
    cases pure_eq_ok.1 h
    refine ⟨hbuilt, ?_⟩
    intro hunique hprimary
    rw [hunique, hprimary] at hskip
    cases hskip
  · rw [if_neg hskip] at h
    obtain ⟨⟨index, built⟩, hindex, h⟩ := bind_eq_ok.1 h
    obtain ⟨bucket, hbucket, h⟩ := bind_eq_ok.1 h
    obtain ⟨hmade, hafter⟩ := of_indexFor hbuilt hindex
    by_cases hclash : clashes index bucket image.id value = true
    · rw [if_pos hclash] at h
      cases h
    · rw [if_neg hclash] at h
      cases pure_eq_ok.1 h
      exact ⟨hafter, fun _ _ => ⟨index, bucket, hmade, hbucket, Bool.eq_false_iff.2 hclash⟩⟩

theorem of_checkForeignKey
    (h : scope.checkForeignKey env images image column value = .ok ()) {key : ForeignKey}
    (hkey : column.foreignKey = some key) :
    ∃ n : Int64, value = .integer n ∧ 0 ≤ n.toInt ∧
      scope.rowWillBe env key.table n.toUInt64 images = .ok true := by
  unfold checkForeignKey at h
  simp only [hkey] at h
  cases value with
  | integer n =>
      by_cases hnegative : n.toInt < 0
      · simp only [hnegative, if_true] at h
        cases h
      · simp only [hnegative, if_false] at h
        obtain ⟨found, hfound, h⟩ := bind_eq_ok.1 h
        cases found with
        | false => cases h
        | true => exact ⟨n, rfl, by omega, hfound⟩
  | _ => cases h

theorem of_checkColumn {columns : List (String × Value)} {indexes after : Indexes}
    (hbuilt : scope.Built env images indexes)
    (h : scope.checkColumn env images image columns indexes column = .ok after) :
    scope.Built env images after ∧ (storedColumn columns column.name ≠ .null →
      scope.Checked env images image column (storedColumn columns column.name)) := by
  unfold checkColumn at h
  generalize storedColumn columns column.name = value at h
  by_cases hnull : value.isNull = true
  · rw [if_pos hnull] at h
    cases pure_eq_ok.1 h
    refine ⟨hbuilt, ?_⟩
    intro hpresent
    cases value with
    | null => exact absurd rfl hpresent
    | _ => cases hnull
  · rw [if_neg hnull] at h
    obtain ⟨built, hunique, h⟩ := bind_eq_ok.1 h
    obtain ⟨_, hforeign, h⟩ := bind_eq_ok.1 h
    cases pure_eq_ok.1 h
    obtain ⟨hafter, hchecked⟩ := of_checkUnique hbuilt hunique
    exact ⟨hafter, fun _ => ⟨hchecked, fun _ hkey => of_checkForeignKey hforeign hkey⟩⟩

/-- Every column of a new row that is not empty was checked. -/
theorem of_checkImage {indexes after : Indexes} (hbuilt : scope.Built env images indexes)
    (h : scope.checkImage env images indexes image = .ok after) :
    scope.Built env images after ∧ ∀ row columns, image.content = some (row, columns) →
      ∀ column ∈ image.model.columns, storedColumn columns column.name ≠ .null →
        scope.Checked env images image column (storedColumn columns column.name) := by
  unfold checkImage RowImage.columns? at h
  cases hcontent : image.content with
  | none =>
      simp only [hcontent] at h
      cases h
      exact ⟨hbuilt, fun _ _ hsome => by cases hsome⟩
  | some content =>
      simp only [hcontent] at h
      refine ⟨foldlM_invariant (fun _ _ _ _ hbefore hstep => (of_checkColumn hbefore hstep).1)
        hbuilt h, ?_⟩
      rintro row columns hsome
      cases hsome
      exact foldlM_each hbuilt (fun _ _ _ _ hbefore hstep => of_checkColumn hbefore hstep) h

theorem of_checkConstraints (h : scope.checkConstraints env images = .ok ()) (himage : image ∈ images)
    {row : StoredRow} {columns : List (String × Value)} (hcontent : image.content = some (row, columns))
    (hcolumn : column ∈ image.model.columns) (hpresent : storedColumn columns column.name ≠ .null) :
    scope.Checked env images image column (storedColumn columns column.name) := by
  unfold checkConstraints at h
  obtain ⟨indexes, hindexes, -⟩ := bind_eq_ok.1 h
  have hbuilt : scope.Built env images ∅ := fun _ _ _ hnone => by cases hnone
  have heach := foldlM_each hbuilt (fun _ _ _ _ hbefore hstep => of_checkImage hbefore hstep) hindexes
  exact heach image himage row columns hcontent column hcolumn hpresent

/-! ## Rows that will be there -/

/-- What the images make of a row: the last image for the row is staged, and its columns are those
that are checked; a row without an image stays. -/
theorem foldl_images (images : List RowImage)
    (staged : SortedMap (String × UInt64) (Option StoredRow)) (values : SortedMap UInt64 Value)
    (table name : String) (number : UInt64) :
    (∃ image ∈ images, imageKey image = (table, number) ∧
      (images.foldl stageImage staged).find? (table, number) = some (image.content.map (·.1)) ∧
      (images.foldl (overlayImage table name) values).find? number =
        image.content.map fun content => storedColumn content.2 name) ∨
    ((∀ image ∈ images, imageKey image ≠ (table, number)) ∧
      (images.foldl stageImage staged).find? (table, number) = staged.find? (table, number) ∧
      (images.foldl (overlayImage table name) values).find? number = values.find? number) := by
  induction images generalizing staged values with
  | nil => exact Or.inr ⟨fun _ hnone => by (cases hnone), rfl, rfl⟩
  | cons image rest ih =>
      rw [List.foldl_cons, List.foldl_cons]
      -- A later image for the row comes over this one.
      rcases ih (stageImage staged image) (overlayImage table name values image) with
        ⟨later, hlater, hkey, hstaged, hvalue⟩ | ⟨hother, hstaged, hvalue⟩
      · exact Or.inl ⟨later, List.mem_cons_of_mem _ hlater, hkey, hstaged, hvalue⟩
      · rw [hstaged, hvalue, stageImage, SortedMap.find?_insert]
        by_cases hkey : imageKey image = (table, number)
        · refine Or.inl ⟨image, List.mem_cons_self, hkey, if_pos hkey.symm, ?_⟩
          cases hkey
          unfold overlayImage RowImage.columns?
          rw [if_pos rfl]
          cases image.content with
          | none => exact (SortedMap.find?_erase ..).trans (if_pos rfl)
          | some content => exact (SortedMap.find?_insert ..).trans (if_pos rfl)
        · refine Or.inr ⟨?_, if_neg fun heq => hkey heq.symm, ?_⟩
          · intro found hfound
            rcases List.mem_cons.1 hfound with rfl | hrest
            · exact hkey
            · exact hother found hrest
          · unfold overlayImage RowImage.columns?
            by_cases htable : image.model.tableName = table
            · rw [if_pos htable]
              have hnumber : number ≠ image.id := by
                rintro rfl
                exact hkey (by rw [imageKey, htable])
              cases image.content with
              | none => exact (SortedMap.find?_erase ..).trans (if_neg hnumber)
              | some content => exact (SortedMap.find?_insert ..).trans (if_neg hnumber)
            · rw [if_neg htable]

/-- A row that will be there is visible after settling, unless a later image deletes it. -/
theorem of_rowWillBe {id : UInt64} (h : scope.rowWillBe env table id images = .ok true) :
    (∃ row, (settle images scope).visibleRow env table id = .ok (some row)) ∨
      (settle images scope).staged.find? (table, id) = some none := by
  rcases find?_foldl_stageImage images scope.staged (table, id) with
    ⟨image, -, -, hfind⟩ | ⟨hother, hfind⟩
  · cases hcontent : image.content with
    | none =>
        rw [hcontent] at hfind
        exact Or.inr hfind
    | some content =>
        rw [hcontent] at hfind
        exact Or.inl ⟨content.1, visibleRow_of_staged hfind⟩
  · -- No image is for the row, so it is visible already.
    unfold rowWillBe at h
    have hnone : (images.find? fun image => image.id == id && image.model.tableName == table) = none := by
      rw [List.find?_eq_none]
      intro image himage hkey
      rw [Bool.and_eq_true, beq_iff_eq, beq_iff_eq] at hkey
      exact hother image himage (by rw [imageKey, hkey.1, hkey.2])
    simp only [hnone] at h
    obtain ⟨found, hfound, h⟩ := bind_eq_ok.1 h
    have hsome := pure_eq_ok.1 h
    obtain ⟨row, rfl⟩ := Option.isSome_iff_exists.1 hsome
    exact Or.inl ⟨row, (visibleRow_congr hfind).trans hfound⟩

end Scope

end RecordStore
