import RecordStore.Model.Compile
import RecordStore.Proofs.Distinct
import RecordStore.Proofs.Schema.Composition

/-!
# Compiled models

What the columns and relationships of a compiled model are in terms of its fields.  Columns stand in
the order of the fields under distinct names (`Model.Compiled.columns_nodup`), the key is the column
of the first field, and every relationship has a column that is a foreign key to its target.
-/

namespace RecordStore

/-- The name of the column of a field. -/
def columnName (field : String × FieldType) : String :=
  match field.2 with
  | .reference _ => referenceColumn field.1
  | _ => field.1

/-- The model that a field refers to, behind the name of the field. -/
def reference? (field : String × FieldType) : Option (String × String) :=
  match field.2 with
  | .reference target => some (field.1, target)
  | _ => none

theorem referenceColumn_injective {a b : String} (h : referenceColumn a = referenceColumn b) :
    a = b := by
  have hchars := congrArg String.toList h
  simp only [referenceColumn, String.toList_append] at hchars
  exact String.toList_inj.1 (List.append_cancel_left (List.append_cancel_right hchars))

theorem isReserved_referenceColumn (field : String) :
    isReserved (referenceColumn field) = true := by
  simp [isReserved, referenceColumn, String.toList_append]

/-- Names of columns tell fields apart: generated names are reserved, and declared ones are not. -/
theorem columnName_injOn {fields : List (String × FieldType)} (hsound : FieldsSound fields)
    {a b : String × FieldType} (ha : a ∈ fields) (hb : b ∈ fields)
    (h : columnName a = columnName b) : a = b := by
  have hname : a.1 = b.1 := by
    obtain ⟨field, type⟩ := a
    obtain ⟨field', type'⟩ := b
    have hfree : isReserved field = false := hsound.unreserved _ ha
    have hfree' : isReserved field' = false := hsound.unreserved _ hb
    -- The column of a reference has a reserved name, every other one the name of its field.
    cases type <;> cases type' <;> simp only [columnName] at h
    case reference.reference => exact referenceColumn_injective h
    all_goals first
      | exact h
      | (rw [← h, isReserved_referenceColumn] at hfree'; cases hfree')
      | (rw [h, isReserved_referenceColumn] at hfree; cases hfree)
  exact List.inj_on_of_nodup_map hsound.names_nodup ha hb hname

theorem columnNames_nodup {fields : List (String × FieldType)} (hsound : FieldsSound fields) :
    (fields.map columnName).Nodup := by
  refine List.Nodup.map_on ?_ (List.Nodup.of_map _ hsound.names_nodup)
  intro a ha b hb heq
  exact columnName_injOn hsound ha hb heq

/-- A model is what its blueprint, a composed one, compiles to; `find?` tells which models are
known. -/
def Model.Compiled (find? : String → Option Model) (model : Model) : Prop :=
  model.blueprint.Composed ∧ ∃ names parts,
    model.blueprint.names = some names ∧
    List.Forall₂ (fun (field : String × FieldType) part =>
      Blueprint.compileField find? model.name names field.1 field.2 = .ok part)
      model.blueprint.fields parts ∧
    model.tableName = names.table ∧ model.relatedName = names.related ∧
    model.columns = parts.map (·.column) ∧ model.relationships = parts.filterMap (·.relationship)

theorem Blueprint.of_compile {find? : String → Option Model} {blueprint : Blueprint}
    {compiled : RecordStore.Compiled} (h : blueprint.compile find? = .ok compiled) :
    ∃ names parts, blueprint.names = some names ∧
      List.Forall₂ (fun (field : String × FieldType) part =>
        compileField find? blueprint.name names field.1 field.2 = .ok part) blueprint.fields parts ∧
      compiled.tableName = names.table ∧ compiled.relatedName = names.related ∧
      compiled.columns = parts.map (·.column) ∧
      compiled.relationships = parts.filterMap (·.relationship) ∧
      compiled.backReferences = parts.filterMap (·.backReference) := by
  unfold Blueprint.compile at h
  cases hnames : blueprint.names with
  | none =>
      rw [hnames] at h
      cases h
  | some names =>
      rw [hnames] at h
      obtain ⟨parts, hparts, h⟩ := bind_eq_ok.1 h
      obtain rfl := pure_eq_ok.1 h
      exact ⟨names, parts, rfl, mapM_eq_ok.1 hparts, rfl, rfl, rfl, rfl, rfl⟩

namespace Blueprint

variable {find? : String → Option Model} {model : String} {names : ModelNames}

theorem compileField_column_name {field : String × FieldType} {part : CompiledField}
    (h : compileField find? model names field.1 field.2 = .ok part) :
    part.column.name = columnName field := by
  obtain ⟨field, type⟩ := field
  cases type with
  | reference target =>
      unfold compileField at h
      cases hfind : find? target with
      | none =>
          simp only [hfind] at h
          cases h
      | some known =>
          simp only [hfind] at h
          cases h
          rfl
  | abstractField => cases h
  | _ =>
      cases h
      rfl

theorem compileField_columnNames {fields : List (String × FieldType)} {parts : List CompiledField}
    (h : List.Forall₂ (fun (field : String × FieldType) part =>
      compileField find? model names field.1 field.2 = .ok part) fields parts) :
    parts.map (fun part => part.column.name) = fields.map columnName := by
  induction h with
  | nil => rfl
  | cons hfield _ ih =>
      rw [List.map_cons, List.map_cons, ih, compileField_column_name hfield]

/-- What a part holds depends on whether its field is a reference. -/
theorem compileField_cases {field : String × FieldType} {part : CompiledField}
    (h : compileField find? model names field.1 field.2 = .ok part) :
    (∃ target known, field.2 = .reference target ∧ find? target = some known ∧
      part = compileReference model names field.1 known) ∨
    (reference? field = none ∧ part.relationship = none ∧ part.backReference = none ∧
      part.column.foreignKey = none) := by
  obtain ⟨field, type⟩ := field
  cases type with
  | reference target =>
      unfold compileField at h
      cases hfind : find? target with
      | none =>
          simp only [hfind] at h
          cases h
      | some known =>
          simp only [hfind] at h
          cases h
          exact Or.inl ⟨target, known, rfl, hfind, rfl⟩
  | abstractField => cases h
  | _ =>
      cases h
      exact Or.inr ⟨rfl, rfl, rfl, rfl⟩

/-- Only references have relationships, and what they consist of. -/
theorem compileField_relationship {field : String × FieldType} {part : CompiledField}
    (h : compileField find? model names field.1 field.2 = .ok part) {relationship : Relationship}
    (hpart : part.relationship = some relationship) :
    ∃ target known, field.2 = .reference target ∧ find? target = some known ∧
      part = compileReference model names field.1 known := by
  rcases compileField_cases h with hreference | ⟨-, hnone, -⟩
  · exact hreference
  · rw [hnone] at hpart
    cases hpart

end Blueprint

namespace Model.Compiled

variable {find? : String → Option Model} {model : Model}

theorem columnNames (h : model.Compiled find?) :
    model.columns.map (·.name) = model.blueprint.fields.map columnName := by
  obtain ⟨-, names, parts, -, hparts, -, -, hcolumns, -⟩ := h
  rw [hcolumns, List.map_map]
  exact Blueprint.compileField_columnNames hparts

theorem columns_nodup (h : model.Compiled find?) : (model.columns.map (·.name)).Nodup := by
  rw [h.columnNames]
  exact columnNames_nodup h.1.fieldsSound

theorem column?_eq (h : model.Compiled find?) {column : Column} (hmem : column ∈ model.columns) :
    model.column? column.name = some column :=
  find?_name_of_mem h.columns_nodup hmem

theorem primaryKey?_eq (h : model.Compiled find?) :
    model.primaryKey? = some (Blueprint.keyColumn model.tableName "id") := by
  obtain ⟨hcomposed, names, parts, -, hparts, htable, -, hcolumns, -⟩ := h
  -- The first field of every composed blueprint is the key.
  obtain ⟨rest, hfields⟩ := hcomposed.fieldsSound.key_first
  rw [hfields] at hparts
  cases hparts with
  | cons hfirst _ =>
      cases hfirst
      unfold Model.primaryKey?
      rw [hcolumns, htable]
      rfl

theorem sequence?_eq (h : model.Compiled find?) :
    model.sequence? = some (sequenceName model.tableName) := by
  unfold Model.sequence?
  rw [h.primaryKey?_eq]
  rfl

/-- Every column was compiled from a field. -/
theorem exists_field (h : model.Compiled find?) {column : Column} (hmem : column ∈ model.columns) :
    ∃ names field type part, Blueprint.compileField find? model.name names field type = .ok part ∧
      part.column = column := by
  obtain ⟨-, names, parts, -, hparts, -, -, hcolumns, -⟩ := h
  rw [hcolumns] at hmem
  obtain ⟨part, hpart, hcolumn⟩ := List.mem_map.1 hmem
  obtain ⟨place, hplace, rfl⟩ := List.mem_iff_getElem.1 hpart
  have hlength := hparts.length_eq
  exact ⟨names, _, _, _, List.Forall₂.get hparts (by omega) hplace, hcolumn⟩

/-- A column is a key, or the column of a reference, or neither. -/
theorem column_cases (h : model.Compiled find?) {column : Column} (hmem : column ∈ model.columns) :
    (∃ table field, column = Blueprint.keyColumn table field) ∨
      (column.kind = .integer ∧ column.tracked = false ∧ column.primaryKey = false) ∨
      (column.primaryKey = false ∧ column.foreignKey = none) := by
  obtain ⟨names, field, type, part, hpart, rfl⟩ := h.exists_field hmem
  cases type with
  | primaryKey =>
      cases hpart
      exact Or.inl ⟨names.table, field, rfl⟩
  | reference target =>
      unfold Blueprint.compileField at hpart
      cases hfind : find? target with
      | none =>
          simp only [hfind] at hpart
          cases hpart
      | some known =>
          simp only [hfind] at hpart
          cases hpart
          exact Or.inr (Or.inl ⟨rfl, rfl, rfl⟩)
  | abstractField => cases hpart
  | _ =>
      cases hpart
      exact Or.inr (Or.inr ⟨rfl, rfl⟩)

/-- A primary key was made from a marker. -/
theorem exists_keyColumn (h : model.Compiled find?) {column : Column} (hmem : column ∈ model.columns)
    (hprimary : column.primaryKey = true) : ∃ table field, column = Blueprint.keyColumn table field := by
  rcases h.column_cases hmem with hkey | ⟨-, -, hdata⟩ | ⟨hdata, -⟩
  · exact hkey
  · cases hprimary.symm.trans hdata
  · cases hprimary.symm.trans hdata

/-- A primary key is a column of integers that is never empty, and is nothing else besides. -/
theorem of_primaryKey (h : model.Compiled find?) {column : Column} (hmem : column ∈ model.columns)
    (hprimary : column.primaryKey = true) :
    column.kind = .integer ∧ column.nullable = false ∧ column.unique = false ∧
      column.foreignKey = none := by
  obtain ⟨_, _, rfl⟩ := h.exists_keyColumn hmem hprimary
  exact ⟨rfl, rfl, rfl, rfl⟩

/-- A primary key is given and has no default. -/
theorem primaryKey_default (h : model.Compiled find?) {column : Column} (hmem : column ∈ model.columns)
    (hprimary : column.primaryKey = true) : column.default = none := by
  obtain ⟨_, _, rfl⟩ := h.exists_keyColumn hmem hprimary
  rfl

/-- A primary key has a name of its own. -/
theorem name_ne_primaryKey (h : model.Compiled find?) {column : Column} (hmem : column ∈ model.columns)
    (hdata : column.primaryKey = false) {key : Column} (hkey : key ∈ model.columns)
    (hprimary : key.primaryKey = true) : column.name ≠ key.name := by
  intro heq
  obtain rfl := List.inj_on_of_nodup_map h.columns_nodup hmem hkey heq
  cases hdata.symm.trans hprimary

/-- The key has a name of its own. -/
theorem name_ne_key (h : model.Compiled find?) {column : Column} (hmem : column ∈ model.columns)
    (hdata : column.primaryKey = false) {key : Column} (hkey : model.primaryKey? = some key) :
    column.name ≠ key.name :=
  h.name_ne_primaryKey hmem hdata (List.mem_of_find?_eq_some hkey) (by simpa using List.find?_some hkey)

/-- Keys cannot be changed in place. -/
theorem of_tracked (h : model.Compiled find?) {column : Column} (hmem : column ∈ model.columns)
    (htracked : column.tracked = true) : column.primaryKey = false := by
  rcases h.column_cases hmem with ⟨_, _, rfl⟩ | ⟨-, -, hdata⟩ | ⟨hdata, -⟩
  · cases htracked
  · exact hdata
  · exact hdata

/-- A column of containers is no key and no reference. -/
theorem of_container (h : model.Compiled find?) {column : Column} (hmem : column ∈ model.columns)
    {kind : ContainerKind} (hkind : column.kind = .container kind) :
    column.primaryKey = false ∧ column.foreignKey = none := by
  rcases h.column_cases hmem with ⟨_, _, rfl⟩ | ⟨hinteger, -, -⟩ | hplain
  · cases hkind
  · cases hkind.symm.trans hinteger
  · exact hplain

/-- Every relationship was compiled from a reference to a known model, together with its column. -/
theorem relationship_part (h : model.Compiled find?) {relationship : Relationship}
    (hmem : relationship ∈ model.relationships) :
    ∃ names field target known, find? target = some known ∧
      (field, FieldType.reference target) ∈ model.blueprint.fields ∧
      (Blueprint.compileReference model.name names field known).column ∈ model.columns ∧
      (Blueprint.compileReference model.name names field known).relationship = some relationship := by
  obtain ⟨-, names, parts, -, hparts, -, -, hcolumns, hrelationships⟩ := h
  rw [hrelationships] at hmem
  obtain ⟨part, hpart, hrelationship⟩ := List.mem_filterMap.1 hmem
  obtain ⟨place, hplace, rfl⟩ := List.mem_iff_getElem.1 hpart
  have hlength := hparts.length_eq
  -- The part with the relationship stands beside the reference field it was compiled from.
  have hfield := List.Forall₂.get hparts (by omega) hplace
  obtain ⟨target, known, htype, hfind, heq⟩ :=
    Blueprint.compileField_relationship hfield hrelationship
  rw [List.get_eq_getElem] at heq
  refine ⟨names, _, target, known, hfind, ?_, ?_, heq ▸ hrelationship⟩
  · rw [← htype]
    exact List.get_mem _ _
  · rw [← heq, hcolumns]
    exact List.mem_map_of_mem hpart

/-- A relationship leads to a known model by a column that is a foreign key to its table. -/
theorem relationship_column (h : model.Compiled find?) {relationship : Relationship}
    (hmem : relationship ∈ model.relationships) :
    ∃ target known, find? target = some known ∧ relationship.target = known.name ∧
      ∃ column ∈ model.columns, column.name = relationship.column ∧
        column.foreignKey = some {
          column := relationship.column
          table := known.tableName
          targetColumn := (known.primaryKey?.map (·.name)).getD "id" } := by
  obtain ⟨names, field, target, known, hfind, -, hcolumn, hpart⟩ := h.relationship_part hmem
  cases hpart
  exact ⟨target, known, hfind, rfl, _, hcolumn, rfl, rfl⟩

/-- The column of a relationship has no default. -/
theorem reference_default (h : model.Compiled find?) {relationship : Relationship}
    (hmem : relationship ∈ model.relationships) {column : Column} (hcolumn : column ∈ model.columns)
    (hname : column.name = relationship.column) : column.default = none := by
  obtain ⟨names, field, target, known, -, -, hown, hpart⟩ := h.relationship_part hmem
  cases hpart
  obtain rfl := List.inj_on_of_nodup_map h.columns_nodup hcolumn hown hname
  rfl

/-- Relationships that share a column lead to the same model. -/
theorem target_eq_of_column (h : model.Compiled find?) {relationship other : Relationship}
    (hmem : relationship ∈ model.relationships) (hother : other ∈ model.relationships)
    (hcolumn : other.column = relationship.column) : other.target = relationship.target := by
  obtain ⟨names, field, target, known, hfind, hfield, -, hpart⟩ := h.relationship_part hmem
  obtain ⟨names', field', target', known', hfind', hfield', -, hpart'⟩ := h.relationship_part hother
  cases hpart
  cases hpart'
  obtain rfl := referenceColumn_injective hcolumn
  have hfields := List.inj_on_of_nodup_map h.1.fieldsSound.names_nodup hfield hfield' rfl
  obtain rfl : target = target' := by simpa using hfields
  obtain rfl := Option.some.inj (hfind.symm.trans hfind')
  rfl

/-- No column has the name of a relationship: a column of a reference has a reserved name, and every
other one that of another field. -/
theorem column?_relationship (h : model.Compiled find?) {relationship : Relationship}
    (hmem : relationship ∈ model.relationships) : model.column? relationship.name = none := by
  obtain ⟨names, field, target, known, -, hfield, -, hpart⟩ := h.relationship_part hmem
  cases hpart
  have hsound := h.1.fieldsSound
  have hfree : isReserved field = false := hsound.unreserved _ hfield
  rw [Model.column?, List.find?_eq_none]
  intro column hcolumn hsame
  have hname : column.name = field := by simpa using hsame
  have hnamed : column.name ∈ model.blueprint.fields.map columnName := by
    rw [← h.columnNames]
    exact List.mem_map_of_mem hcolumn
  obtain ⟨⟨other, type⟩, hother, hcolumnName⟩ := List.mem_map.1 hnamed
  rw [hname] at hcolumnName
  by_cases hreference : ∃ target, type = .reference target
  · obtain ⟨_, rfl⟩ := hreference
    rw [← hcolumnName] at hfree
    simp [columnName, isReserved_referenceColumn] at hfree
  · have hplain : columnName (other, type) = other := by
      cases type <;> simp [columnName] at hreference ⊢
    obtain rfl : other = field := hplain.symm.trans hcolumnName
    have hfields := List.inj_on_of_nodup_map hsound.names_nodup hother hfield rfl
    exact hreference ⟨target, (Prod.mk.inj hfields).2⟩

/-- An attribute that is a column, or a relationship with a column, stands for the column. -/
theorem attributeColumn?_eq (h : model.Compiled find?) {column : Column}
    (hcolumn : column ∈ model.columns) {attr : String}
    (hattr : attr = column.name ∨ ∃ relationship ∈ model.relationships,
      relationship.name = attr ∧ relationship.column = column.name) :
    model.attributeColumn? attr = some column := by
  unfold Model.attributeColumn?
  rcases hattr with rfl | ⟨relationship, hmem, rfl, hname⟩
  · simp only [h.column?_eq hcolumn]
  · simp only [h.column?_relationship hmem]
    obtain ⟨found, hfound⟩ : ∃ found, model.relationship? relationship.name = some found := by
      refine Option.isSome_iff_exists.1 (List.find?_isSome.2 ⟨relationship, hmem, by simp⟩)
    -- The column of a relationship is named after the relationship.
    have hnamed : ∀ {relationship}, relationship ∈ model.relationships →
        relationship.column = referenceColumn relationship.name := by
      intro relationship hmem
      obtain ⟨names, field, target, known, -, -, -, hpart⟩ := h.relationship_part hmem
      cases hpart
      rfl
    have hsame : found.name = relationship.name := by simpa using List.find?_some hfound
    have hcolumn' : found.column = column.name :=
      calc found.column = referenceColumn found.name := hnamed (List.mem_of_find?_eq_some hfound)
        _ = referenceColumn relationship.name := by rw [hsame]
        _ = relationship.column := (hnamed hmem).symm
        _ = column.name := hname
    rw [hfound, Option.bind_some, hcolumn', h.column?_eq hcolumn]

/-- A relationship does not lead by a primary key. -/
theorem reference_ne_primaryKey (h : model.Compiled find?) {relationship : Relationship}
    (hmem : relationship ∈ model.relationships) {key : Column} (hkey : key ∈ model.columns)
    (hprimary : key.primaryKey = true) : relationship.column ≠ key.name := by
  obtain ⟨_, _, -, -, column, hcolumn, hname, hforeign⟩ := h.relationship_column hmem
  rw [← hname]
  refine h.name_ne_primaryKey hcolumn ?_ hkey hprimary
  cases hown : column.primaryKey with
  | false => rfl
  | true =>
      rw [(h.of_primaryKey hcolumn hown).2.2.2] at hforeign
      cases hforeign

/-- A relationship does not lead by the key. -/
theorem reference_ne_key (h : model.Compiled find?) {relationship : Relationship}
    (hmem : relationship ∈ model.relationships) {key : Column}
    (hkey : model.primaryKey? = some key) : relationship.column ≠ key.name :=
  h.reference_ne_primaryKey hmem (List.mem_of_find?_eq_some hkey) (by simpa using List.find?_some hkey)

end Model.Compiled

end RecordStore
