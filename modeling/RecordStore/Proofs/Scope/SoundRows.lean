import RecordStore.Proofs.Scope.Checking
import RecordStore.Proofs.Scope.Moves

/-!
# Sound rows

What holds of the rows that a scope sees, whatever came into it (`Scope.SoundRows`): each was written
for its model, no two hold the same value in a unique column, and a foreign key names a row that is
there or was deleted.  Only settling changes rows, and what it stages was checked
(`Scope.SoundRows.settle`).
-/

namespace RecordStore

namespace Column

variable {column : Column} {table : String} {id : Int64} {stored : Value}

/-- What a flush writes to a column of its own accord is a stored form of the column. -/
theorem Written.admits {find? : String → Option Model} {model : Model}
    (h : column.Written table id stored) (hcompiled : model.Compiled find?)
    (hmem : column ∈ model.columns) : column.Admits table stored := by
  cases h with
  | key hprimary =>
      exact admits_key (hcompiled.of_primaryKey hmem hprimary).1 table id
  | bound value _ _ hbind => exact Or.inr ⟨value, hbind⟩
  | empty => exact Or.inl rfl

/-- A column that may not be empty is not left empty. -/
theorem Written.ne_null (h : column.Written table id stored) (hnullable : column.nullable = false) :
    stored ≠ .null := by
  rintro rfl
  cases h with
  | bound value _ _ hbind =>
      rw [nullable_of_bind_null hbind] at hnullable
      cases hnullable
  | empty _ hallowed =>
      rw [hallowed] at hnullable
      cases hnullable

/-- A column of a primary key gets the key. -/
theorem Written.eq_key (h : column.Written table id stored) (hprimary : column.primaryKey = true) :
    stored = .integer id := by
  cases h with
  | key => rfl
  | bound _ _ hdata =>
      rw [hprimary] at hdata
      cases hdata
  | empty hdata =>
      rw [hprimary] at hdata
      cases hdata

end Column

namespace Scope

variable {env : Environment} {terms : Terms} {deleted : List (String × UInt64)}
  {scope before after : Scope} {images : List RowImage} {model : Model} {number : UInt64}
  {columns : List (String × Value)}

/-! ## Rows with their columns -/

/-- The row of a number is visible, and was written for a model from the given columns. -/
def Shows (env : Environment) (scope : Scope) (model : Model) (number : UInt64)
    (columns : List (String × Value)) : Prop :=
  ∃ row, scope.visibleRow env model.tableName number = .ok (some row) ∧ model.Wrote row columns

theorem Shows.congr (h : after.Shows env model number columns)
    (hstaged : after.staged = before.staged) : before.Shows env model number columns := by
  obtain ⟨row, hrow, hwrote⟩ := h
  exact ⟨row, (visibleRow_congr (by rw [hstaged])).trans hrow, hwrote⟩

/-- A row has been deleted in a scope, or was among those that were deleted before. -/
def Deleted (deleted : List (String × UInt64)) (scope : Scope) (table : String) (number : UInt64) :
    Prop :=
  scope.staged.find? (table, number) = some none ∨ (table, number) ∈ deleted

/-- A foreign key names a row that is there, or one that was deleted. -/
def Refers (env : Environment) (deleted : List (String × UInt64)) (scope : Scope) (table : String)
    (stored : Value) : Prop :=
  ∃ n : Int64, stored = .integer n ∧ 0 ≤ n.toInt ∧
    ((∃ row, scope.visibleRow env table n.toUInt64 = .ok (some row)) ∨
      scope.Deleted deleted table n.toUInt64)

/-- What holds of the rows that a scope sees, with the rows that were deleted before it. -/
structure SoundRows (env : Environment) (deleted : List (String × UInt64)) (scope : Scope) : Prop where
  written : ∀ model ∈ env.registry.models, ∀ number row,
    scope.visibleRow env model.tableName number = .ok (some row) →
      ∃ columns, model.Wrote row columns
  unique : ∀ model ∈ env.registry.models, ∀ column ∈ model.columns, column.unique = true →
    ∀ a b as bs, a ≠ b → scope.Shows env model a as → scope.Shows env model b bs →
      storedColumn as column.name ≠ .null →
        (storedColumn as column.name).equals (storedColumn bs column.name) = false
  references : ∀ model ∈ env.registry.models, ∀ number columns,
    scope.Shows env model number columns → ∀ column ∈ model.columns, ∀ key,
      column.foreignKey = some key → storedColumn columns column.name ≠ .null →
        scope.Refers env deleted key.table (storedColumn columns column.name)

/-- Nothing changes as long as nothing is staged. -/
theorem SoundRows.congr (h : before.SoundRows env deleted) (hstaged : after.staged = before.staged) :
    after.SoundRows env deleted := by
  have hvisible : ∀ table number,
      after.visibleRow env table number = before.visibleRow env table number := fun _ _ =>
    visibleRow_congr (by rw [hstaged])
  constructor
  case written =>
    intro model hmodel number row hrow
    exact h.written model hmodel number row ((hvisible _ _).symm.trans hrow)
  case unique =>
    intro model hmodel column hcolumn hunique a b as bs hne ha hb
    exact h.unique model hmodel column hcolumn hunique a b as bs hne (ha.congr hstaged)
      (hb.congr hstaged)
  case references =>
    intro model hmodel number columns hshows column hcolumn key hkey hpresent
    obtain ⟨n, hn, hpositive, hrow⟩ :=
      h.references model hmodel number columns (hshows.congr hstaged) column hcolumn key hkey hpresent
    refine ⟨n, hn, hpositive, ?_⟩
    unfold Deleted at hrow ⊢
    rw [hvisible, hstaged]
    exact hrow

/-! ## Images -/

theorem Image.some_cases {s : Standing} {image : RowImage} (h : Image env scope s (some image)) :
    image.model = s.model ∧ ∃ id, s.id = some id ∧ 0 ≤ id.toInt ∧ image.id = id.toUInt64 := by
  cases h with
  | inserted id _ _ _ hid hpositive => exact ⟨rfl, id, hid, hpositive, rfl⟩
  | updated id _ _ _ _ _ hid hpositive => exact ⟨rfl, id, hid, hpositive, rfl⟩
  | deleted id _ hid hpositive => exact ⟨rfl, id, hid, hpositive, rfl⟩

/-- The columns that a stored row has in its model, or none where there is no row. -/
theorem SoundRows.existingColumns_admits (h : scope.SoundRows env deleted)
    (hmodel : model ∈ env.registry.models) (hcount : model.columns.length < 4294967296)
    (hdistinct : (model.columns.map (·.name)).Nodup) {existing : Option StoredRow}
    (hrow : scope.visibleRow env model.tableName number = .ok existing)
    {stored : List (String × Value)} (hstored : existingColumns existing = .ok stored)
    {column : Column} (hmem : column ∈ model.columns) :
    column.Admits model.tableName (storedColumn stored column.name) := by
  cases existing with
  | none =>
      cases hstored
      exact Or.inl rfl
  | some row =>
      obtain ⟨columns, hwrote⟩ := h.written model hmodel number row hrow
      obtain rfl := (hwrote.holds hcount).of_decodeRow (ofData_eq_ok.1 hstored)
      exact hwrote.admits_column hdistinct hmem

/-- An image of a new or changed row is a row written for its model. -/
theorem Image.wrote (hregistry : env.registry.Consistent)
    (hcount : ∀ model ∈ env.registry.models, model.columns.length < 4294967296)
    (hrows : scope.SoundRows env deleted) {s : Standing} (hmodel : s.model ∈ env.registry.models)
    {image : RowImage} (h : Image env scope s (some image)) {row : StoredRow}
    (hcontent : image.content = some (row, columns)) : image.model.Wrote row columns := by
  obtain ⟨place, -, hcompiled⟩ := hregistry.mem_compiled hmodel
  have hown : ∀ column ∈ s.model.columns, column ∈ s.model.columns := fun _ hcolumn => hcolumn
  cases h with
  | inserted id made written _ _ _ hdata hcolumns =>
      cases hcontent
      refine ⟨hdata, ?_⟩
      refine ((List.forall₂_and_left _ _).2 ⟨hown, hcolumns⟩).imp ?_
      rintro column entry ⟨hcolumn, hname, hwritten⟩
      exact ⟨hname, hwritten.admits hcompiled hcolumn⟩
  | updated id made written stored existing _ _ _ hdata hexisting hstored hcolumns =>
      cases hcontent
      refine ⟨hdata, ?_⟩
      refine ((List.forall₂_and_left _ _).2 ⟨hown, hcolumns⟩).imp ?_
      rintro column entry ⟨hcolumn, hname, hwritten | ⟨-, hkept⟩⟩
      · exact ⟨hname, hwritten.admits hcompiled hcolumn⟩
      · rw [hkept]
        exact ⟨hname, hrows.existingColumns_admits hmodel (hcount _ hmodel) hcompiled.columns_nodup
          hexisting hstored hcolumn⟩
  | deleted => cases hcontent

/-- Row images that were written for registered models. -/
def ImagesWrote (env : Environment) (images : List RowImage) : Prop :=
  ∀ image ∈ images, image.model ∈ env.registry.models ∧
    ∀ row columns, image.content = some (row, columns) → image.model.Wrote row columns

theorem Images.wrote (hregistry : env.registry.Consistent)
    (hcount : ∀ model ∈ env.registry.models, model.columns.length < 4294967296)
    (hrooted : scope.Rooted env) (hrows : scope.SoundRows env deleted) {handles : List Handle}
    (h : Images env scope handles images) : ImagesWrote env images := by
  intro image himage
  obtain ⟨handle, s, hs, hmade⟩ := h.made image himage
  have hmodel := hrooted.registered handle s hs
  refine ⟨hmade.some_cases.1 ▸ hmodel, ?_⟩
  intro row columns hcontent
  exact hmade.wrote hregistry hcount hrows hmodel hcontent

/-! ## Settling -/

section Settling

variable (hregistry : env.registry.Consistent) (hwrote : ImagesWrote env images)

include hregistry hwrote

/-- The image of which a row was staged, with the columns it was written from. -/
theorem of_staged_image (hmodel : model ∈ env.registry.models) {image : RowImage}
    (himage : image ∈ images) (hkey : imageKey image = (model.tableName, number))
    (hfind : (images.foldl stageImage scope.staged).find? (model.tableName, number) =
      some (image.content.map (·.1)))
    {row : StoredRow}
    (hrow : (settle images scope).visibleRow env model.tableName number = .ok (some row)) :
    image.model = model ∧ image.id = number ∧
      ∃ written, image.content = some (row, written) ∧ model.Wrote row written := by
  have hstaged : (settle images scope).visibleRow env model.tableName number =
      .ok (image.content.map (·.1)) := visibleRow_of_staged hfind
  rw [hrow] at hstaged
  obtain ⟨⟨made, written⟩, hcontent, rfl⟩ := Option.map_eq_some_iff.1 (Except.ok.inj hstaged).symm
  obtain ⟨hregistered, hwritten⟩ := hwrote image himage
  obtain rfl := hregistry.eq_of_tableName hregistered hmodel (congrArg Prod.fst hkey)
  exact ⟨rfl, congrArg Prod.snd hkey, written, hcontent, hwritten made written hcontent⟩

variable (hcount : ∀ model ∈ env.registry.models, model.columns.length < 4294967296)

include hcount

/-- A row that is visible after settling is that of an image, or was visible before. -/
theorem shows_settle (hmodel : model ∈ env.registry.models)
    (h : (settle images scope).Shows env model number columns) :
    (∃ image ∈ images, image.model = model ∧ image.id = number ∧
      ∃ row, image.content = some (row, columns)) ∨ scope.Shows env model number columns := by
  obtain ⟨row, hrow, hcolumns⟩ := h
  rcases find?_foldl_stageImage images scope.staged (model.tableName, number) with
    ⟨image, himage, hkey, hfind⟩ | ⟨-, hfind⟩
  · obtain ⟨hsame, hnumber, written, hcontent, hwritten⟩ :=
      of_staged_image hregistry hwrote hmodel himage hkey hfind hrow
    -- The row tells its columns.
    obtain rfl := hwritten.unique hcolumns (hcount _ hmodel)
    exact Or.inl ⟨image, himage, hsame, hnumber, row, hcontent⟩
  · exact Or.inr ⟨row, (visibleRow_congr hfind).symm.trans hrow, hcolumns⟩

/-- Rows that will be there stand in the values that unique columns are checked against. -/
theorem mem_overlaid (hmodel : model ∈ env.registry.models)
    (h : (settle images scope).Shows env model number columns) {name : String}
    {values : SortedMap UInt64 Value}
    (hvalues : scope.columnValues env model.tableName name = .ok values) :
    (number, storedColumn columns name) ∈
      (images.foldl (overlayImage model.tableName name) values).toList := by
  obtain ⟨row, hrow, hcolumns⟩ := h
  refine SortedMap.find?_eq_some_iff.1 ?_
  rcases foldl_images images scope.staged values model.tableName name number with
    ⟨image, himage, hkey, hstaged, hvalue⟩ | ⟨-, hstaged, hvalue⟩
  · obtain ⟨-, -, written, hcontent, hwritten⟩ :=
      of_staged_image hregistry hwrote hmodel himage hkey hstaged hrow
    obtain rfl := hwritten.unique hcolumns (hcount _ hmodel)
    rw [hvalue, hcontent]
    rfl
  · have hbefore : scope.visibleRow env model.tableName number = .ok (some row) :=
      (visibleRow_congr hstaged).symm.trans hrow
    obtain ⟨found, hfound, hfind⟩ := find?_columnValues hvalues hbefore
    rw [hvalue, hfind, ((hcolumns.holds (hcount _ hmodel)).of_getColumn hfound).2]

/-- What an image holds in a unique column is held by no other row after settling. -/
theorem equals_eq_false_of_checked (hchecked : scope.checkConstraints env images = .ok ())
    {image : RowImage} (himage : image ∈ images) {row : StoredRow} {written : List (String × Value)}
    (hcontent : image.content = some (row, written)) {column : Column}
    (hcolumn : column ∈ image.model.columns) (hunique : column.unique = true)
    (hpresent : storedColumn written column.name ≠ .null) (hne : number ≠ image.id)
    (h : (settle images scope).Shows env image.model number columns) :
    (storedColumn columns column.name).equals (storedColumn written column.name) = false := by
  have hmodel := (hwrote image himage).1
  obtain ⟨place, -, hcompiled⟩ := hregistry.mem_compiled hmodel
  have hprimary : column.primaryKey = false := by
    cases hcase : column.primaryKey with
    | false => rfl
    | true =>
        rw [(hcompiled.of_primaryKey hcolumn hcase).2.2.1] at hunique
        cases hunique
  have hcheck := of_checkConstraints hchecked himage hcontent hcolumn hpresent
  obtain ⟨index, bucket, hindex, hbucket, hclash⟩ := hcheck.unique hunique hprimary
  unfold uniqueIndex at hindex
  obtain ⟨values, hvalues, hindexed⟩ := bind_eq_ok.1 hindex
  have hmem := mem_overlaid hregistry hwrote hcount hmodel h hvalues
  exact equals_eq_false_of_not_clashes hindexed hmem hpresent hbucket hclash hne

end Settling

/-- What was there or was deleted is there or deleted after settling. -/
theorem Refers.settle {table : String} {stored : Value} (h : scope.Refers env deleted table stored)
    (images : List RowImage) : (settle images scope).Refers env deleted table stored := by
  obtain ⟨n, hn, hpositive, hrow⟩ := h
  refine ⟨n, hn, hpositive, ?_⟩
  rcases find?_foldl_stageImage images scope.staged (table, n.toUInt64) with
    ⟨image, -, -, hfind⟩ | ⟨-, hfind⟩
  · cases hcontent : image.content with
    | none =>
        rw [hcontent] at hfind
        exact Or.inr (Or.inl hfind)
    | some content =>
        rw [hcontent] at hfind
        exact Or.inl ⟨content.1, visibleRow_of_staged hfind⟩
  · rcases hrow with ⟨row, hvisible⟩ | hstaged | hbefore
    · exact Or.inl ⟨row, (visibleRow_congr hfind).trans hvisible⟩
    · exact Or.inr (Or.inl (hfind.trans hstaged))
    · exact Or.inr (Or.inr hbefore)

/-- Only values that are empty equal an empty value. -/
theorem equals_null {value : Value} (hscalar : value.containerKind? = none) (hpresent : value ≠ .null) :
    value.equals .null = false := by
  rw [Value.equals_of_scalar hscalar]
  cases value with
  | null => exact absurd rfl hpresent
  | _ => rfl

/-- Rows stay sound when images are staged that have passed the check. -/
theorem SoundRows.settle (hregistry : env.registry.Consistent)
    (hcount : ∀ model ∈ env.registry.models, model.columns.length < 4294967296)
    (h : scope.SoundRows env deleted) (hwrote : ImagesWrote env images)
    (hchecked : scope.checkConstraints env images = .ok ()) :
    (settle images scope).SoundRows env deleted := by
  constructor
  case written =>
    intro model hmodel number row hrow
    rcases find?_foldl_stageImage images scope.staged (model.tableName, number) with
      ⟨image, himage, hkey, hfind⟩ | ⟨-, hfind⟩
    · obtain ⟨-, -, written, -, hwritten⟩ :=
        of_staged_image hregistry hwrote hmodel himage hkey hfind hrow
      exact ⟨written, hwritten⟩
    · exact h.written model hmodel number row ((visibleRow_congr hfind).symm.trans hrow)
  case unique =>
    intro model hmodel column hcolumn hunique a b as bs hne ha hb hpresent
    obtain ⟨place, -, hcompiled⟩ := hregistry.mem_compiled hmodel
    have hscalar : ∀ number columns, (Scope.settle images scope).Shows env model number columns →
        (storedColumn columns column.name).containerKind? = none := by
      rintro number columns ⟨row, -, hcolumns⟩
      exact (hcolumns.admits_column hcompiled.columns_nodup hcolumn).containerKind?_eq
    rcases shows_settle hregistry hwrote hcount hmodel hb with
      ⟨image, himage, rfl, rfl, row, hcontent⟩ | hbefore
    · -- The second row is that of an image, against which the first one stands in the index.
      by_cases hnull : storedColumn bs column.name = .null
      · rw [hnull]
        exact equals_null (hscalar a as ha) hpresent
      · exact equals_eq_false_of_checked hregistry hwrote hcount hchecked himage hcontent hcolumn
          hunique hnull hne ha
    · rcases shows_settle hregistry hwrote hcount hmodel ha with
        ⟨image, himage, rfl, rfl, row, hcontent⟩ | hbefore'
      · -- Only the first row is that of an image, so the two stand the other way round.
        have hother := equals_eq_false_of_checked hregistry hwrote hcount hchecked himage hcontent
          hcolumn hunique hpresent (Ne.symm hne) hb
        rw [Value.equals_of_scalar (hscalar b bs hb)] at hother
        rw [Value.equals_of_scalar (hscalar _ as ha)]
        by_contra htrue
        rw [Bool.not_eq_false] at htrue
        rw [Value.equalsScalar_symm htrue] at hother
        cases hother
      · exact h.unique model hmodel column hcolumn hunique a b as bs hne hbefore' hbefore hpresent
  case references =>
    intro model hmodel number columns hshows column hcolumn key hkey hpresent
    rcases shows_settle hregistry hwrote hcount hmodel hshows with
      ⟨image, himage, rfl, rfl, row, hcontent⟩ | hbefore
    · have hcheck := of_checkConstraints hchecked himage hcontent hcolumn hpresent
      obtain ⟨n, hn, hpositive, hthere⟩ := hcheck.foreignKey key hkey
      refine ⟨n, hn, hpositive, ?_⟩
      rcases of_rowWillBe hthere with hvisible | hstaged
      · exact Or.inl hvisible
      · exact Or.inr (Or.inl hstaged)
    · exact (h.references model hmodel number columns hbefore column hcolumn key hkey
        hpresent).settle images

theorem SoundRows.move (hregistry : env.registry.Consistent)
    (hcount : ∀ model ∈ env.registry.models, model.columns.length < 4294967296)
    (hrooted : before.Rooted env) (h : before.SoundRows env deleted)
    (hmove : Move env terms before after) : after.SoundRows env deleted := by
  rcases hmove.staged_cases with hstaged | ⟨images, himages, hchecked, rfl⟩
  · exact h.congr hstaged
  · exact h.settle hregistry hcount (himages.wrote hregistry hcount hrooted h) hchecked

end Scope

end RecordStore
