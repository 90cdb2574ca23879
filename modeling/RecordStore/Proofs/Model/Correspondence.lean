import RecordStore.Proofs.Registry.Calls
import RecordStore.Proofs.Schema.Chains

/-!
# Columns and references of a compiled blueprint

Compiling goes through the fields once and makes three lists: columns, relationships, and the
collections at other models.  This file says what each list is in terms of the fields.

* `Column.Represents`: all that a column has, and which of it comes from the kind of its field.
* `Blueprint.references`: the reference fields with the models they name, in order.  The columns that
  are foreign keys, the relationships and the collections stand beside them one by one.

Only an unknown target keeps the blueprint of a concrete model from compiling
(`compile_corresponds`).
-/

namespace RecordStore

/-! ## Columns as they were declared -/

/-- The properties that a declaration can give a column. -/
def Column.spec (column : Column) : ColumnSpec where
  kind := column.kind
  nullable := column.nullable
  default := column.default
  unique := column.unique
  indexed := column.indexed
  doc := column.doc

/-- The properties of the column of a kind of field; a field that is left open has no column. -/
def FieldType.columnSpec? : FieldType → Option ColumnSpec
  | primitive type => some { kind := type.storageKind }
  | column spec => some spec
  | reference _ => some { kind := .integer, nullable := false }
  | primaryKey => some { kind := .integer, nullable := false }
  | abstractField => none

/-- The reference fields and the models they name, in order. -/
def Blueprint.references (blueprint : Blueprint) : List (String × String) :=
  blueprint.fields.filterMap reference?

/-- The column of a field: named after it, with the properties of its kind, a key exactly where the
field is one, and a foreign key exactly where the field is a reference.  Changes in place are noticed
in the containers that can be changed. -/
structure Column.Represents (table : String) (field : String × FieldType) (column : Column) :
    Prop where
  name_eq : column.name = columnName field
  field_eq : column.field = field.1
  spec_eq : field.2.columnSpec? = some column.spec
  primaryKey_iff : column.primaryKey = true ↔ field.2 = .primaryKey
  sequence_eq : column.sequence = if column.primaryKey then some (sequenceName table) else none
  foreignKey_iff : column.foreignKey.isSome = true ↔ ∃ target, field.2 = .reference target
  tracked_iff : column.tracked = true ↔
    column.kind ∈ [StorageKind.container .list, .container .mapping, .container .set]

theorem StorageKind.isMutable_iff {kind : StorageKind} :
    kind.isMutable = true ↔
      kind ∈ [StorageKind.container .list, .container .mapping, .container .set] := by
  cases kind with
  | container shape => cases shape <;> decide
  | varChar limit => simp [isMutable]
  | _ => decide

/-! ## One field -/

namespace Blueprint

variable {find? : String → Option Model} {model : String} {names : ModelNames}

theorem compileField_represents {field : String × FieldType} {part : CompiledField}
    (h : compileField find? model names field.1 field.2 = .ok part) :
    part.column.Represents names.table field := by
  have hname := compileField_column_name h
  obtain ⟨field, type⟩ := field
  cases type with
  | reference target =>
      rcases compileField_cases h with ⟨_, known, -, -, rfl⟩ | ⟨hnone, -⟩
      · refine ⟨hname, rfl, rfl, ?_, rfl, ?_, ?_⟩
        · simp [compileReference]
        · simp [compileReference]
        · simp [compileReference]
      · cases hnone
  | primaryKey =>
      cases h
      refine ⟨hname, rfl, rfl, ?_, rfl, ?_, ?_⟩
      · simp [keyColumn]
      · simp [keyColumn]
      · simp [keyColumn]
  | column spec =>
      cases h
      refine ⟨hname, rfl, rfl, ?_, rfl, ?_, StorageKind.isMutable_iff⟩
      · simp [specColumn]
      · simp [specColumn]
  | primitive type =>
      cases h
      refine ⟨hname, rfl, rfl, ?_, rfl, ?_, StorageKind.isMutable_iff⟩
      · simp [primitiveColumn]
      · simp [primitiveColumn]
  | abstractField => cases h

/-- A field compiles unless it was left open or refers to an unknown model. -/
theorem exists_compileField_iff {field : String × FieldType}
    (hconcrete : field.2.isAbstract = false) :
    (∃ part, compileField find? model names field.1 field.2 = .ok part) ↔
      ∀ reference, reference? field = some reference → ∃ known, find? reference.2 = some known := by
  obtain ⟨field, type⟩ := field
  cases type with
  | reference target =>
      constructor
      · rintro ⟨part, hpart⟩ reference hreference
        cases hreference
        rcases compileField_cases hpart with ⟨_, known, heq, hfind, -⟩ | ⟨hnone, -⟩
        · cases heq
          exact ⟨known, hfind⟩
        · cases hnone
      · intro hknown
        obtain ⟨known, hfind⟩ := hknown (field, target) rfl
        exact ⟨compileReference model names field known, by simp only [compileField, hfind]⟩
  | abstractField => cases hconcrete
  | _ => exact ⟨fun _ _ hnone => (by cases hnone), fun _ => ⟨_, rfl⟩⟩

/-! ## All fields -/

/-- The relationship of a reference field. -/
def relationshipOf (names : ModelNames) (reference : String × String) : Relationship where
  name := reference.1
  target := reference.2
  column := referenceColumn reference.1
  backReference := names.related

/-- The collection that a reference field adds at the model it names. -/
def collectionOf (model : String) (names : ModelNames) (reference : String × String) :
    String × BackReference :=
  (reference.2, {
    name := names.related
    source := model
    relationship := reference.1
    column := referenceColumn reference.1 })

/-- The foreign key of a reference field: it is never empty, and names the table of the target and
the key there. -/
def ForeignKeyOf (find? : String → Option Model) (reference : String × String) (column : Column) :
    Prop :=
  column.name = "_" ++ reference.1 ++ "_id" ∧ column.nullable = false ∧
    ∃ target key, find? reference.2 = some target ∧ target.primaryKey? = some key ∧
      column.foreignKey = some {
        column := column.name
        table := target.tableName
        targetColumn := key.name }

variable {fields : List (String × FieldType)} {parts : List CompiledField}

section Lists

variable (hparts : List.Forall₂ (fun (field : String × FieldType) part =>
  compileField find? model names field.1 field.2 = .ok part) fields parts)

include hparts

theorem represents_of_parts :
    List.Forall₂ (Column.Represents names.table) fields (parts.map (·.column)) := by
  refine List.forall₂_map_right_iff.2 (hparts.imp ?_)
  intro field part hpart
  exact compileField_represents hpart

/-- What only references have stands beside the references, when it does so at each of them. -/
theorem filterMap_of_parts {β : Type} {part? : CompiledField → Option β}
    {beside : String × String → β → Prop}
    (hnone : ∀ part : CompiledField, part.relationship = none → part.backReference = none →
      part.column.foreignKey = none → part? part = none)
    (hsome : ∀ field target known, find? target = some known →
      ∃ b, part? (compileReference model names field known) = some b ∧ beside (field, target) b) :
    List.Forall₂ beside (fields.filterMap reference?) (parts.filterMap part?) := by
  refine List.rel_filterMap ?_ hparts
  intro field part hpart
  rcases compileField_cases hpart with ⟨target, known, htype, hfind, rfl⟩ |
    ⟨hplain, hrelationship, hcollection, hforeign⟩
  · obtain ⟨b, hb, hbeside⟩ := hsome field.1 target known hfind
    have hreference : reference? field = some (field.1, target) := by
      simp only [reference?, htype]
    rw [hreference, hb]
    exact .some hbeside
  · rw [hplain, hnone part hrelationship hcollection hforeign]
    exact .none

/-- The same, when what stands beside a reference is a function of it. -/
theorem filterMap_eq_of_parts {β : Type} {part? : CompiledField → Option β}
    {of : String × String → β}
    (hnone : ∀ part : CompiledField, part.relationship = none → part.backReference = none →
      part.column.foreignKey = none → part? part = none)
    (hsome : ∀ field target known, find? target = some known →
      part? (compileReference model names field known) = some (of (field, target))) :
    parts.filterMap part? = (fields.filterMap reference?).map of := by
  refine (List.forall₂_eq_eq_eq ▸ List.forall₂_map_left_iff.2 ?_ :
    (fields.filterMap reference?).map of = parts.filterMap part?).symm
  refine filterMap_of_parts hparts hnone ?_
  intro field target known hfind
  exact ⟨_, hsome field target known hfind, rfl⟩

/-- The columns that are foreign keys, in the order of the references. -/
theorem foreignKeys_of_parts
    (hkeys : ∀ target known, find? target = some known → ∃ key, known.primaryKey? = some key) :
    List.Forall₂ (ForeignKeyOf find?) (fields.filterMap reference?)
      ((parts.map (·.column)).filter (·.foreignKey.isSome)) := by
  rw [← List.filterMap_eq_filter, List.filterMap_map]
  refine filterMap_of_parts hparts ?_ ?_
  · intro part _ _ hforeign
    simp [hforeign]
  · intro field target known hfind
    obtain ⟨key, hkey⟩ := hkeys target known hfind
    refine ⟨(compileReference model names field known).column, ?_, rfl, rfl, known, key, hfind,
      hkey, ?_⟩
    · simp [compileReference]
    · simp [compileReference, hkey]

end Lists

end Blueprint

/-- What compiling makes of the fields of a blueprint; `find?` tells which models are known. -/
structure Compiled.Corresponds (find? : String → Option Model) (blueprint : Blueprint)
    (names : ModelNames) (compiled : Compiled) : Prop where
  tableName_eq : compiled.tableName = names.table
  relatedName_eq : compiled.relatedName = names.related
  columns : List.Forall₂ (Column.Represents names.table) blueprint.fields compiled.columns
  columns_nodup : (compiled.columns.map (·.name)).Nodup
  foreignKeys : List.Forall₂ (Blueprint.ForeignKeyOf find?) blueprint.references
    (compiled.columns.filter (·.foreignKey.isSome))
  relationships_eq :
    compiled.relationships = blueprint.references.map (Blueprint.relationshipOf names)
  backReferences_eq : compiled.backReferences =
    blueprint.references.map (Blueprint.collectionOf blueprint.name names)

namespace Blueprint

variable {find? : String → Option Model} {names : ModelNames} {blueprint : Blueprint}

/-- Only an unknown target keeps a complete blueprint from compiling. -/
theorem exists_compile_iff (hnames : blueprint.names = some names)
    (hconcrete : ∀ field ∈ blueprint.fields, field.2.isAbstract = false) :
    (∃ compiled, blueprint.compile find? = .ok compiled) ↔
      ∀ reference ∈ blueprint.references, ∃ known, find? reference.2 = some known := by
  have hcompile : (∃ compiled, blueprint.compile find? = .ok compiled) ↔
      ∃ parts, blueprint.fields.mapM (fun entry =>
        compileField find? blueprint.name names entry.1 entry.2) = .ok parts := by
    unfold compile
    rw [hnames]
    constructor
    · rintro ⟨compiled, h⟩
      obtain ⟨parts, hparts, -⟩ := bind_eq_ok.1 h
      exact ⟨parts, hparts⟩
    · rintro ⟨parts, hparts⟩
      exact ⟨_, bind_eq_ok.2 ⟨parts, hparts, rfl⟩⟩
  rw [hcompile, exists_mapM_eq_ok]
  constructor
  · intro hall reference hreference
    obtain ⟨field, hfield, hsome⟩ := List.mem_filterMap.1 hreference
    exact (exists_compileField_iff (hconcrete field hfield)).1 (hall field hfield) reference hsome
  · intro hknown field hfield
    refine (exists_compileField_iff (hconcrete field hfield)).2 fun reference hsome => ?_
    exact hknown reference (List.mem_filterMap.2 ⟨field, hfield, hsome⟩)

theorem compile_corresponds_of_known {compiled : Compiled} (hcomposed : blueprint.Composed)
    (hnames : blueprint.names = some names)
    (hknown : ∀ name known, find? name = some known →
      known.name = name ∧ ∃ key, known.primaryKey? = some key)
    (h : blueprint.compile find? = .ok compiled) :
    compiled.Corresponds find? blueprint names := by
  obtain ⟨names', parts, hnames', hparts, htable, hrelated, hcolumns, hrelationships,
    hcollections⟩ := of_compile h
  obtain rfl := Option.some.inj (hnames.symm.trans hnames')
  refine ⟨htable, hrelated, ?_, ?_, ?_, ?_, ?_⟩
  · rw [hcolumns]
    exact represents_of_parts hparts
  · rw [hcolumns, List.map_map]
    have hcolumnNames := compileField_columnNames hparts
    exact hcolumnNames ▸ columnNames_nodup hcomposed.fieldsSound
  · rw [hcolumns]
    exact foreignKeys_of_parts hparts fun target known hfind => (hknown target known hfind).2
  · rw [hrelationships]
    refine filterMap_eq_of_parts hparts (fun _ hnone _ _ => hnone) ?_
    intro field target known hfind
    obtain rfl := (hknown target known hfind).1
    rfl
  · rw [hcollections]
    refine filterMap_eq_of_parts hparts (fun _ _ hnone _ => hnone) ?_
    intro field target known hfind
    obtain rfl := (hknown target known hfind).1
    rfl

/-- Of the collections, those that the references to one target add there. -/
theorem additionsAt_collectionOf (model : String) (names : ModelNames)
    (references : List (String × String)) (target : String) :
    Registry.additionsAt target (references.map (collectionOf model names)) =
      (references.filter (·.2 = target)).map fun reference =>
        (collectionOf model names reference).2 := by
  unfold Registry.additionsAt
  induction references with
  | nil => rfl
  | cons reference rest ih =>
      rw [List.map_cons, List.filterMap_cons, List.filter_cons, ih]
      by_cases htarget : reference.2 = target
      · simp [collectionOf, htarget]
      · simp [collectionOf, htarget]

end Blueprint

/-- Compiling the blueprint of a concrete model, with the models of any registry that calls have
made: it succeeds exactly when every model that is referred to is registered.  Then the columns are
those of the fields, in order and under distinct names, and every reference has one foreign key to
the table and the key of its target, one relationship, and one collection at the target, all in the
order of the fields.  Registering the model adds these collections behind those that are there. -/
theorem compile_corresponds (calls : List Registry.Call)
    (hadmissible : ∀ call ∈ calls, call.Admissible) {blueprint : Blueprint}
    (hcomposed : blueprint.Composed) (hconcrete : blueprint.isAbstract = false) :
    let registry := calls.foldl Registry.after {}
    ((∃ compiled, blueprint.compile registry.find? = .ok compiled) ↔
      ∀ reference ∈ blueprint.references, ∃ target ∈ registry.models, target.name = reference.2) ∧
    ∃ names, blueprint.names = some names ∧
      ∀ compiled, blueprint.compile registry.find? = .ok compiled →
        compiled.Corresponds registry.find? blueprint names ∧
        ∀ target, (registry.add blueprint compiled).1.backReferences target =
          registry.backReferences target ++
            (blueprint.references.filter (·.2 = target)).map fun reference =>
              (Blueprint.collectionOf blueprint.name names reference).2 := by
  intro registry
  have h : registry.Consistent := Registry.consistent_empty.foldl_after hadmissible
  obtain ⟨names, hnames⟩ : ∃ names, blueprint.names = some names := by
    cases hnames : blueprint.names with
    | none => simp [Blueprint.isAbstract, hnames] at hconcrete
    | some names => exact ⟨names, rfl⟩
  refine ⟨?_, names, hnames, fun compiled hcompile => ?_⟩
  · rw [Blueprint.exists_compile_iff hnames (hcomposed.complete hnames).fields_concrete]
    simp only [h.find?_eq_some_iff]
  · -- What is registered goes by its own name and has a key, so a foreign key is never left empty.
    have hknown : ∀ name known, registry.find? name = some known →
        known.name = name ∧ ∃ key, known.primaryKey? = some key := by
      intro name known hfind
      obtain ⟨hmem, hname⟩ := h.find?_eq_some_iff.1 hfind
      obtain ⟨_, -, hcompiled⟩ := h.mem_compiled hmem
      exact ⟨hname, _, hcompiled.primaryKey?_eq⟩
    have hcorresponds := Blueprint.compile_corresponds_of_known hcomposed hnames hknown hcompile
    refine ⟨hcorresponds, fun target => ?_⟩
    refine (Registry.find?_foldl_addCollection compiled.backReferences _ target).trans ?_
    rw [hcorresponds.backReferences_eq, Blueprint.additionsAt_collectionOf]
    rfl

/-- A model with two references to one other, and a field that is named much like their columns. -/
def Blueprint.novel : Blueprint where
  name := "Novel"
  names := some { table := "novels", related := "novels" }
  fields := base.fields ++ [
    ("writer", .reference "Author"),
    ("writer_id", .primitive .integer),
    ("editor", .reference "Author"),
    ("chapters", .primitive .list)]

theorem compile_corresponds_novel :
    let calls : List Registry.Call :=
      [.create "Author" .base [("name", .primitive .text)] "authors" "all" ∅]
    (∀ call ∈ calls, call.Admissible) ∧ Blueprint.novel.Composed ∧
      Blueprint.novel.isAbstract = false ∧
      ∃ compiled,
        Blueprint.novel.compile (calls.foldl Registry.after {}).find? = .ok compiled ∧
        compiled.Corresponds (calls.foldl Registry.after {}).find? Blueprint.novel
          { table := "novels", related := "novels" } ∧
        compiled.columns.map (·.name) =
          ["id", "data", "_writer_id", "writer_id", "_editor_id", "chapters"] ∧
        compiled.relationships.map (·.name) = ["writer", "editor"] := by
  intro calls
  have hadmissible : ∀ call ∈ calls, call.Admissible := by
    simp [calls, Registry.Call.Admissible, Blueprint.Composed.base]
  have hcomposed : Blueprint.novel.Composed :=
    @Blueprint.Composed.compose {
      name := "Novel"
      tableName := some "novels"
      relatedName := some "novels"
      overrides := [
        ("writer", .typed (.reference "Author")),
        ("writer_id", .named "integer"),
        ("editor", .typed (.reference "Author")),
        ("chapters", .named "list")] } _ .base rfl
  obtain ⟨hcompile, names, hnames, hall⟩ := compile_corresponds calls hadmissible hcomposed rfl
  cases hnames
  have hregistered : ∃ target ∈ (calls.foldl Registry.after {}).models, target.name = "Author" :=
    List.mem_map.1 (by decide +kernel :
      "Author" ∈ (calls.foldl Registry.after {}).models.map (·.name))
  obtain ⟨compiled, hcompiled⟩ := hcompile.2 fun reference hreference => by
    have heither : ("writer", "Author") = reference ∨ ("editor", "Author") = reference := by
      simpa [Blueprint.references, Blueprint.novel, Blueprint.base, reference?] using hreference
    rcases heither with rfl | rfl
    · exact hregistered
    · exact hregistered
  obtain ⟨hcorresponds, -⟩ := hall compiled hcompiled
  refine ⟨hadmissible, hcomposed, rfl, compiled, hcompiled, hcorresponds, ?_, ?_⟩
  · obtain ⟨_, parts, -, hparts, -, -, hcolumns, -⟩ := Blueprint.of_compile hcompiled
    rw [hcolumns, List.map_map]
    exact (Blueprint.compileField_columnNames hparts).trans (by decide)
  · rw [hcorresponds.relationships_eq]
    decide

end RecordStore
