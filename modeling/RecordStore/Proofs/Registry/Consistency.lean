import Mathlib.Data.List.Induction
import RecordStore.Proofs.Model.Compilation
import RecordStore.Proofs.SortedMap
import RecordStore.Registry

/-!
# Consistency of registries

A registry is determined by its models: its indexes by model and by table, and the collections at
every model, say what the list of models says (`Registry.Consistent`).  Registering a model keeps
this (`Consistent.register`), and so does taking models back (`Consistent.truncate`), which undoes
registration after a failure.
-/

namespace RecordStore

theorem getElem?_snoc_eq_some_iff {α : Type} {xs : List α} {x y : α} {place : Nat} :
    (xs ++ [x])[place]? = some y ↔ xs[place]? = some y ∨ place = xs.length ∧ x = y := by
  rw [List.getElem?_append]
  by_cases hplace : place < xs.length
  · have hne : place ≠ xs.length := by omega
    simp [hplace, hne]
  · have hold : xs[place]? = none := List.getElem?_eq_none (by omega)
    rw [if_neg hplace, hold]
    rcases Nat.eq_or_lt_of_le (Nat.le_of_not_lt hplace) with heq | hlt
    · simp [← heq]
    · have hne : place ≠ xs.length := by omega
      have hone : ([x] : List α)[place - xs.length]? = none :=
        List.getElem?_eq_none (by simp only [List.length_singleton]; omega)
      simp [hne, hone]

/-! ## What the models say -/

/-- The collections that the reference fields of a model add at a target, in the order of the
fields. -/
def Model.referencesTo (model : Model) (target : String) : List BackReference :=
  model.blueprint.fields.filterMap fun field =>
    match field.2 with
    | .reference name =>
        if name = target then
          some {
            name := model.relatedName
            source := model.name
            relationship := field.1
            column := referenceColumn field.1 }
        else none
    | _ => none

/-- The model of a name in a list of models. -/
def knownAmong (models : List Model) (name : String) : Option Model :=
  models.find? fun model => model.name == name

theorem Model.source_of_mem_referencesTo {model : Model} {target : String}
    {reference : BackReference}
    (h : reference ∈ model.referencesTo target) : reference.source = model.name := by
  obtain ⟨⟨field, type⟩, -, hfield⟩ := List.mem_filterMap.1 h
  cases type with
  | reference name =>
      by_cases hname : name = target
      · simp only [hname, if_true] at hfield
        cases hfield
        rfl
      · simp only [hname, if_false] at hfield
        cases hfield
  | _ => cases hfield

namespace Registry

/-- All indexes of a registry say what its list of models says, and every model was compiled from a
composed blueprint when exactly the models before it were known. -/
structure Consistent (registry : Registry) : Prop where
  names_nodup : (registry.models.map (·.name)).Nodup
  tables_nodup : (registry.models.map (·.tableName)).Nodup
  byName_iff : ∀ (name : String) (place : Nat), registry.byName.find? name = some place ↔
    ∃ model, registry.models[place]? = some model ∧ model.name = name
  byTable_iff : ∀ (table owner : String), registry.byTable.find? table = some owner ↔
    ∃ model ∈ registry.models, model.tableName = table ∧ model.name = owner
  backReferences_eq : ∀ target : String,
    registry.backReferences target = registry.models.flatMap (·.referencesTo target)
  compiled : ∀ (place : Nat) (model : Model), registry.models[place]? = some model →
    model.Compiled (knownAmong (registry.models.take place))

theorem consistent_empty : Consistent {} where
  names_nodup := List.nodup_nil
  tables_nodup := List.nodup_nil
  byName_iff name place := by simp
  byTable_iff table owner := by simp
  backReferences_eq target := rfl
  compiled place model h := by simp at h

namespace Consistent

variable {registry : Registry}

theorem find?_eq_some_iff (h : registry.Consistent) {name : String} {model : Model} :
    registry.find? name = some model ↔ model ∈ registry.models ∧ model.name = name := by
  unfold Registry.find?
  rw [Option.bind_eq_some_iff]
  constructor
  · rintro ⟨place, hplace, hmodel⟩
    obtain ⟨other, hother, hname⟩ := (h.byName_iff name place).1 hplace
    rw [hmodel] at hother
    cases hother
    exact ⟨List.mem_of_getElem? hmodel, hname⟩
  · rintro ⟨hmem, hname⟩
    obtain ⟨place, hplace⟩ := List.mem_iff_getElem?.1 hmem
    exact ⟨place, (h.byName_iff name place).2 ⟨model, hplace, hname⟩, hplace⟩

theorem model_eq_ok (h : registry.Consistent) {name : String} {model : Model} :
    registry.model name = .ok model ↔ model ∈ registry.models ∧ model.name = name := by
  rw [← h.find?_eq_some_iff]
  unfold Registry.model
  cases registry.find? name with
  | none => simp
  | some found => simp

theorem find?_eq_knownAmong (h : registry.Consistent) :
    registry.find? = knownAmong registry.models := by
  funext name
  apply Option.ext
  intro model
  rw [h.find?_eq_some_iff]
  exact (find?_name_eq_some_iff h.names_nodup).symm

theorem mem_compiled (h : registry.Consistent) {model : Model} (hmem : model ∈ registry.models) :
    ∃ place, registry.models[place]? = some model ∧
      model.Compiled (knownAmong (registry.models.take place)) := by
  obtain ⟨place, hplace⟩ := List.mem_iff_getElem?.1 hmem
  exact ⟨place, hplace, h.compiled place model hplace⟩

end Consistent

/-! ## Indexes -/

section Indexes

variable {models : List Model} {model : Model}

/-- An index by name holds the place of every model, and nothing else. -/
def IndexesNames (index : SortedMap String Nat) (models : List Model) : Prop :=
  ∀ (name : String) (place : Nat), index.find? name = some place ↔
    ∃ model, models[place]? = some model ∧ model.name = name

/-- An index by table holds the name of every model, and nothing else. -/
def IndexesTables (index : SortedMap String String) (models : List Model) : Prop :=
  ∀ (table owner : String), index.find? table = some owner ↔
    ∃ model ∈ models, model.tableName = table ∧ model.name = owner

theorem IndexesNames.insert {index : SortedMap String Nat} (h : IndexesNames index models)
    (hnew : model.name ∉ models.map (·.name)) :
    IndexesNames (index.insert model.name models.length) (models ++ [model]) := by
  intro name place
  simp only [SortedMap.find?_insert, getElem?_snoc_eq_some_iff]
  by_cases hsame : name = model.name
  · rw [if_pos hsame, hsame]
    constructor
    · intro hplace
      cases hplace
      exact ⟨model, Or.inr ⟨rfl, rfl⟩, rfl⟩
    · rintro ⟨other, hother | ⟨rfl, -⟩, hotherName⟩
      · exact absurd (hotherName ▸ List.mem_map_of_mem (List.mem_of_getElem? hother)) hnew
      · rfl
  · rw [if_neg hsame, h name place]
    constructor
    · rintro ⟨other, hother, hotherName⟩
      exact ⟨other, Or.inl hother, hotherName⟩
    · rintro ⟨other, hother | ⟨-, rfl⟩, hotherName⟩
      · exact ⟨other, hother, hotherName⟩
      · exact absurd hotherName.symm hsame

theorem IndexesNames.erase {index : SortedMap String Nat}
    (h : IndexesNames index (models ++ [model])) (hnew : model.name ∉ models.map (·.name)) :
    IndexesNames (index.erase model.name) models := by
  intro name place
  rw [SortedMap.find?_erase]
  by_cases hsame : name = model.name
  · rw [if_pos hsame, hsame]
    constructor
    · intro hplace
      cases hplace
    · rintro ⟨other, hother, hotherName⟩
      exact absurd (hotherName ▸ List.mem_map_of_mem (List.mem_of_getElem? hother)) hnew
  · rw [if_neg hsame, h name place]
    constructor
    · rintro ⟨other, hother, hotherName⟩
      rcases getElem?_snoc_eq_some_iff.1 hother with hold | ⟨-, rfl⟩
      · exact ⟨other, hold, hotherName⟩
      · exact absurd hotherName.symm hsame
    · rintro ⟨other, hother, hotherName⟩
      exact ⟨other, getElem?_snoc_eq_some_iff.2 (Or.inl hother), hotherName⟩

theorem IndexesTables.insert {index : SortedMap String String} (h : IndexesTables index models)
    (hnew : model.tableName ∉ models.map (·.tableName)) :
    IndexesTables (index.insert model.tableName model.name) (models ++ [model]) := by
  intro table owner
  simp only [SortedMap.find?_insert, List.mem_append, List.mem_singleton]
  by_cases hsame : table = model.tableName
  · rw [if_pos hsame, hsame]
    constructor
    · intro howner
      cases howner
      exact ⟨model, Or.inr rfl, rfl, rfl⟩
    · rintro ⟨other, hother | rfl, hotherTable, rfl⟩
      · exact absurd (hotherTable ▸ List.mem_map_of_mem hother) hnew
      · rfl
  · rw [if_neg hsame, h table owner]
    constructor
    · rintro ⟨other, hother, hotherTable, hotherName⟩
      exact ⟨other, Or.inl hother, hotherTable, hotherName⟩
    · rintro ⟨other, hother | rfl, hotherTable, hotherName⟩
      · exact ⟨other, hother, hotherTable, hotherName⟩
      · exact absurd hotherTable.symm hsame

theorem IndexesTables.erase {index : SortedMap String String}
    (h : IndexesTables index (models ++ [model]))
    (hnew : model.tableName ∉ models.map (·.tableName)) :
    IndexesTables (index.erase model.tableName) models := by
  intro table owner
  rw [SortedMap.find?_erase]
  by_cases hsame : table = model.tableName
  · rw [if_pos hsame, hsame]
    constructor
    · intro howner
      cases howner
    · rintro ⟨other, hother, hotherTable, -⟩
      exact absurd (hotherTable ▸ List.mem_map_of_mem hother) hnew
  · rw [if_neg hsame, h table owner]
    constructor
    · rintro ⟨other, hother, hotherTable, hotherName⟩
      rcases List.mem_append.1 hother with hold | hnew
      · exact ⟨other, hold, hotherTable, hotherName⟩
      · rw [List.mem_singleton.1 hnew] at hotherTable
        exact absurd hotherTable.symm hsame
    · rintro ⟨other, hother, hotherTable, hotherName⟩
      exact ⟨other, List.mem_append_left _ hother, hotherTable, hotherName⟩

end Indexes

/-! ## Collections -/

/-- What a list of additions adds at one target. -/
def additionsAt (target : String) (additions : List (String × BackReference)) :
    List BackReference :=
  additions.filterMap fun entry => if entry.1 = target then some entry.2 else none

theorem find?_foldl_addCollection (additions : List (String × BackReference))
    (collections : SortedMap String (List BackReference)) (target : String) :
    ((additions.foldl addCollection collections).find? target).getD [] =
      (collections.find? target).getD [] ++ additionsAt target additions := by
  induction additions generalizing collections with
  | nil => simp [additionsAt]
  | cons entry rest ih =>
      rw [List.foldl_cons, ih, addCollection, SortedMap.find?_insert, additionsAt, additionsAt,
        List.filterMap_cons]
      by_cases htarget : target = entry.1
      · simp [htarget]
      · have hother : ¬entry.1 = target := fun heq => htarget heq.symm
        simp [htarget, hother]

/-- What compiling adds at a target is what the reference fields to it say. -/
theorem additionsAt_eq_referencesTo {find? : String → Option Model} {model : Model}
    {names : ModelNames} {parts : List CompiledField}
    (hknown : ∀ name known, find? name = some known → known.name = name)
    (hparts : List.Forall₂ (fun (field : String × FieldType) part =>
      Blueprint.compileField find? model.name names field.1 field.2 = .ok part)
      model.blueprint.fields parts)
    (hrelated : model.relatedName = names.related) (target : String) :
    additionsAt target (parts.filterMap (·.backReference)) = model.referencesTo target := by
  unfold Model.referencesTo additionsAt
  rw [hrelated]
  generalize model.blueprint.fields = fields at hparts
  induction hparts with
  | nil => rfl
  | @cons field part _ _ hfield _ ih =>
      obtain ⟨name, type⟩ := field
      rw [List.filterMap_cons, List.filterMap_cons]
      cases type with
      | reference wanted =>
          unfold Blueprint.compileField at hfield
          cases hfind : find? wanted with
          | none =>
              simp only [hfind] at hfield
              cases hfield
          | some known =>
              simp only [hfind] at hfield
              cases hfield
              have hname := hknown wanted known hfind
              by_cases htarget : wanted = target
              · simp [Blueprint.compileReference, hname, htarget, ih]
              · simp [Blueprint.compileReference, hname, htarget, ih]
      | abstractField => cases hfield
      | _ =>
          cases hfield
          exact ih

theorem filter_flatMap_referencesTo {models : List Model} {model : Model}
    (hnew : model.name ∉ models.map (·.name)) (target : String) :
    (models.flatMap (·.referencesTo target)).filter
      (fun reference => reference.source != model.name) =
        models.flatMap (·.referencesTo target) := by
  rw [List.filter_eq_self]
  intro reference hreference
  obtain ⟨other, hother, hmem⟩ := List.mem_flatMap.1 hreference
  rw [Model.source_of_mem_referencesTo hmem]
  have hne : other.name ≠ model.name := fun heq => hnew (heq ▸ List.mem_map_of_mem hother)
  simpa using hne

theorem filter_referencesTo_self (model : Model) (target : String) :
    (model.referencesTo target).filter (fun reference => reference.source != model.name) = [] := by
  rw [List.filter_eq_nil_iff]
  intro reference hreference
  rw [Model.source_of_mem_referencesTo hreference]
  simp

/-- What the registration of each model keeps is kept when several are registered, however far that
comes. -/
theorem registerEach_keeps (holds : Registry → Prop) {candidates : List Candidate}
    (hstep : ∀ registry candidate next model, candidate ∈ candidates → holds registry →
      registry.register candidate = .ok (next, model) → holds next)
    {registry : Registry} (h : holds registry) : holds (registry.registerEach candidates).1 := by
  induction candidates generalizing registry with
  | nil => exact h
  | cons candidate rest ih =>
      unfold Registry.registerEach
      cases hregister : registry.register candidate with
      | error e => exact h
      | ok result =>
          obtain ⟨next, model⟩ := result
          have hrest := ih (fun registry other next model hmem =>
              hstep registry other next model (List.mem_cons_of_mem _ hmem))
            (hstep registry candidate next model List.mem_cons_self h hregister)
          cases hresult : next.registerEach rest with
          | mk last outcome =>
              rw [hresult] at hrest
              simp only [hresult]
              cases outcome with
              | error e => exact hrest
              | ok models => exact hrest

/-! ## Adding a model -/

/-- What a successful registration has found out, and what it adds. -/
theorem of_register {registry registry' : Registry} {candidate : Candidate} {model : Model}
    (h : registry.register candidate = .ok (registry', model)) :
    ∃ blueprint names compiled, candidate.resolve = .ok blueprint ∧ blueprint.names = some names ∧
      registry.byName.find? blueprint.name = none ∧ registry.byTable.find? names.table = none ∧
      blueprint.compile registry.find? = .ok compiled ∧
      (registry', model) = registry.add blueprint compiled := by
  unfold register at h
  obtain ⟨blueprint, hresolve, h⟩ := bind_eq_ok.1 h
  obtain ⟨checked, hnew, h⟩ := bind_eq_ok.1 h
  obtain ⟨compiled, hcompile, h⟩ := bind_eq_ok.1 h
  have hadd := pure_eq_ok.1 h
  unfold checkNew at hnew
  cases hnames : blueprint.names with
  | none =>
      simp only [hnames] at hnew
      cases hnew
  | some names =>
      simp only [hnames] at hnew
      by_cases hname : registry.byName.contains blueprint.name = true
      · rw [if_pos hname] at hnew
        cases hnew
      · rw [if_neg hname] at hnew
        cases htable : registry.byTable.find? names.table with
        | some owner =>
            simp only [htable] at hnew
            cases hnew
        | none =>
            have hfree := SortedMap.contains_eq_false_iff.1 (Bool.not_eq_true _ ▸ hname)
            exact ⟨blueprint, names, compiled, hresolve, hnames, hfree, htable, hcompile, hadd.symm⟩

end Registry

/-- What is handed in for registration comes from composition. -/
def Candidate.Admissible : Candidate → Prop
  | declaration declared => declared.ancestor.Composed
  | blueprint resolved => resolved.Composed
  | registered _ => True

theorem Candidate.Admissible.composed {candidate : Candidate} (h : candidate.Admissible)
    {blueprint : Blueprint} (hresolve : candidate.resolve = .ok blueprint) :
    blueprint.Composed := by
  cases candidate with
  | declaration declared =>
      unfold Candidate.resolve at hresolve
      cases hcompose : declared.compose with
      | error fault =>
          simp only [hcompose] at hresolve
          cases hresolve
      | ok resolved =>
          simp only [hcompose] at hresolve
          cases hresolve
          exact .compose h hcompose
  | blueprint resolved =>
      cases hresolve
      exact h
  | registered model => cases hresolve

namespace Registry

namespace Consistent

variable {registry : Registry}

theorem name_not_mem (h : registry.Consistent) {name : String}
    (hfree : registry.byName.find? name = none) : name ∉ registry.models.map (·.name) := by
  intro hmem
  obtain ⟨model, hmodel, rfl⟩ := List.mem_map.1 hmem
  obtain ⟨place, hplace⟩ := List.mem_iff_getElem?.1 hmodel
  rw [(h.byName_iff model.name place).2 ⟨model, hplace, rfl⟩] at hfree
  cases hfree

theorem table_not_mem (h : registry.Consistent) {table : String}
    (hfree : registry.byTable.find? table = none) :
    table ∉ registry.models.map (·.tableName) := by
  intro hmem
  obtain ⟨model, hmodel, rfl⟩ := List.mem_map.1 hmem
  rw [(h.byTable_iff model.tableName model.name).2 ⟨model, hmodel, rfl, rfl⟩] at hfree
  cases hfree

/-- A consistent registry stays consistent with a compiled model of a new name and table. -/
theorem add (h : registry.Consistent) {blueprint : Blueprint} (hcomposed : blueprint.Composed)
    {names : ModelNames} {compiled : RecordStore.Compiled}
    (hnames : blueprint.names = some names)
    (hname : registry.byName.find? blueprint.name = none)
    (htable : registry.byTable.find? names.table = none)
    (hcompile : blueprint.compile registry.find? = .ok compiled) :
    (registry.add blueprint compiled).1.Consistent := by
  obtain ⟨names', parts, hnames', hparts, htableName, hrelatedName, hcolumns, hrelationships,
    hbackReferences⟩ := Blueprint.of_compile hcompile
  rw [hnames] at hnames'
  cases hnames'
  -- All that matters of the new model are its name, its table and how it was compiled.
  generalize hmodel : (registry.add blueprint compiled).2 = model
  have hmodelName : model.name = blueprint.name := by
    rw [← hmodel]
    rfl
  have hmodelTable : model.tableName = compiled.tableName := by
    rw [← hmodel]
    rfl
  have hnewName : model.name ∉ registry.models.map (·.name) := by
    rw [hmodelName]
    exact h.name_not_mem hname
  have hnewTable : model.tableName ∉ registry.models.map (·.tableName) := by
    rw [hmodelTable, htableName]
    exact h.table_not_mem htable
  have hmodels : (registry.add blueprint compiled).1.models = registry.models ++ [model] := by
    rw [← hmodel]
    rfl
  have hmodelCompiled : model.Compiled registry.find? := by
    rw [← hmodel]
    exact ⟨hcomposed, names, parts, hnames, hparts, htableName, hrelatedName, hcolumns,
      hrelationships⟩
  have hknown : ∀ name known, registry.find? name = some known → known.name = name := by
    intro name known hfind
    exact (h.find?_eq_some_iff.1 hfind).2
  refine ⟨?_, ?_, ?_, ?_, ?_, ?_⟩
  · rw [hmodels, List.map_append, List.map_singleton, ← List.concat_eq_append]
    exact h.names_nodup.concat hnewName
  · rw [hmodels, List.map_append, List.map_singleton, ← List.concat_eq_append]
    exact h.tables_nodup.concat hnewTable
  · rw [hmodels]
    have hbyName : (registry.add blueprint compiled).1.byName =
        registry.byName.insert model.name registry.models.length := by
      rw [hmodelName]
      rfl
    rw [hbyName]
    exact IndexesNames.insert h.byName_iff hnewName
  · rw [hmodels]
    have hbyTable : (registry.add blueprint compiled).1.byTable =
        registry.byTable.insert model.tableName model.name := by
      rw [hmodelTable, hmodelName]
      rfl
    rw [hbyTable]
    exact IndexesTables.insert h.byTable_iff hnewTable
  · intro target
    have hcollections : (registry.add blueprint compiled).1.collections =
        compiled.backReferences.foldl addCollection registry.collections := rfl
    have hadded : additionsAt target compiled.backReferences = model.referencesTo target := by
      rw [hbackReferences, ← hmodel]
      exact @additionsAt_eq_referencesTo registry.find?
        (registry.add blueprint compiled).2 names parts
        hknown hparts hrelatedName target
    have hbefore := h.backReferences_eq target
    unfold backReferences at hbefore ⊢
    rw [hcollections, find?_foldl_addCollection, hbefore, hadded, hmodels, List.flatMap_append,
      List.flatMap_singleton]
  · intro place other hother
    rw [hmodels] at hother ⊢
    rcases getElem?_snoc_eq_some_iff.1 hother with hold | ⟨rfl, rfl⟩
    -- The models before an old one are the same; those before the new one are all that were known.
    · have hplace : place < registry.models.length := (List.getElem?_eq_some_iff.1 hold).1
      rw [List.take_append_of_le_length (by omega)]
      exact h.compiled place other hold
    · rw [List.take_left, ← h.find?_eq_knownAmong]
      exact hmodelCompiled

theorem register (h : registry.Consistent) {registry' : Registry} {candidate : Candidate}
    {model : Model} (hadmissible : candidate.Admissible)
    (hregister : registry.register candidate = .ok (registry', model)) :
    registry'.Consistent ∧ registry'.models = registry.models ++ [model] := by
  obtain ⟨blueprint, names, compiled, hresolve, hnames, hname, htable, hcompile, hadd⟩ :=
    of_register hregister
  have hresult := h.add (hadmissible.composed hresolve) hnames hname htable hcompile
  rw [← hadd] at hresult
  refine ⟨hresult, ?_⟩
  cases hadd
  rfl

theorem eq_of_name (h : registry.Consistent) {a b : Model} (ha : a ∈ registry.models)
    (hb : b ∈ registry.models) (hname : a.name = b.name) : a = b :=
  List.inj_on_of_nodup_map h.names_nodup ha hb hname

theorem eq_of_tableName (h : registry.Consistent) {a b : Model} (ha : a ∈ registry.models)
    (hb : b ∈ registry.models) (htable : a.tableName = b.tableName) : a = b :=
  List.inj_on_of_nodup_map h.tables_nodup ha hb htable

/-- The description of a table names its sequence. -/
theorem sequence_of_tableSchemas (h : registry.Consistent) {model : Model}
    (hmodel : model ∈ registry.models) {schema : TableSchema} (hschema : schema ∈ registry.tableSchemas)
    (htable : schema.table = model.tableName) : schema.sequence = sequenceName model.tableName := by
  obtain ⟨other, hother, rfl⟩ := List.mem_map.1 hschema
  obtain rfl := h.eq_of_tableName hother hmodel htable
  obtain ⟨_, -, hcompiled⟩ := h.mem_compiled hmodel
  exact congrArg (·.getD "") hcompiled.sequence?_eq

/-! ## Taking models back -/

theorem remove (h : registry.Consistent) {models : List Model} {model : Model}
    (hlast : registry.models = models ++ [model]) :
    (registry.remove model).Consistent ∧ (registry.remove model).models = models := by
  have hmodels : (registry.remove model).models = models := by
    show registry.models.dropLast = models
    rw [hlast, List.dropLast_concat]
  have hnames := h.names_nodup
  have htables := h.tables_nodup
  rw [hlast, List.map_append, List.map_singleton] at hnames htables
  obtain ⟨hnamesBefore, -, hnamesApart⟩ := List.nodup_append.1 hnames
  obtain ⟨htablesBefore, -, htablesApart⟩ := List.nodup_append.1 htables
  have hnewName : model.name ∉ models.map (·.name) :=
    fun hmem => hnamesApart _ hmem _ List.mem_cons_self rfl
  have hnewTable : model.tableName ∉ models.map (·.tableName) :=
    fun hmem => htablesApart _ hmem _ List.mem_cons_self rfl
  refine ⟨⟨?_, ?_, ?_, ?_, ?_, ?_⟩, hmodels⟩
  · rw [hmodels]
    exact hnamesBefore
  · rw [hmodels]
    exact htablesBefore
  · rw [hmodels]
    exact IndexesNames.erase (hlast ▸ h.byName_iff) hnewName
  · rw [hmodels]
    exact IndexesTables.erase (hlast ▸ h.byTable_iff) hnewTable
  · intro target
    -- What the others added stays, since none of them is named like the removed one.
    have hkept := filter_flatMap_referencesTo hnewName target
    have hdropped := filter_referencesTo_self model target
    have hbefore := h.backReferences_eq target
    rw [hlast, List.flatMap_append, List.flatMap_singleton] at hbefore
    have hcollections : (registry.remove model).backReferences target =
        (registry.backReferences target).filter fun reference =>
          reference.source != model.name := by
      unfold backReferences Registry.remove
      rw [SortedMap.find?_mapValues]
      cases registry.collections.find? target with
      | none => rfl
      | some references => rfl
    rw [hcollections, hbefore, List.filter_append, hkept, hdropped, List.append_nil, hmodels]
  · intro place other hother
    rw [hmodels] at hother ⊢
    have hplace : place < models.length := (List.getElem?_eq_some_iff.1 hother).1
    have hcompiled := h.compiled place other
      (by rw [hlast]; exact getElem?_snoc_eq_some_iff.2 (Or.inl hother))
    rw [hlast, List.take_append_of_le_length (by omega)] at hcompiled
    exact hcompiled

/-- Empty collections are the same as no collections. -/
theorem dropEmptyCollections (h : registry.Consistent) :
    registry.dropEmptyCollections.Consistent := by
  refine ⟨h.names_nodup, h.tables_nodup, h.byName_iff, h.byTable_iff, ?_, h.compiled⟩
  intro target
  have hsame : registry.dropEmptyCollections.backReferences target =
      registry.backReferences target := by
    unfold backReferences Registry.dropEmptyCollections
    rw [SortedMap.find?_filter]
    cases registry.collections.find? target with
    | none => rfl
    | some references =>
        cases references with
        | nil => rfl
        | cons first rest => rfl
  rw [hsame]
  exact h.backReferences_eq target

theorem foldr_remove (h : registry.Consistent) {models added : List Model}
    (hmodels : registry.models = models ++ added) :
    (added.foldr (fun model registry => registry.remove model) registry).Consistent ∧
      (added.foldr (fun model registry => registry.remove model) registry).models = models := by
  induction added using List.reverseRecOn generalizing registry with
  | nil =>
      rw [List.append_nil] at hmodels
      exact ⟨h, hmodels⟩
  | append_singleton added model ih =>
      rw [← List.append_assoc] at hmodels
      obtain ⟨hremoved, hbefore⟩ := h.remove hmodels
      rw [List.foldr_append, List.foldr_cons, List.foldr_nil]
      exact ih hremoved hbefore

theorem truncate (h : registry.Consistent) {models added : List Model}
    (hmodels : registry.models = models ++ added) :
    (registry.truncate models.length).Consistent ∧
      (registry.truncate models.length).models = models := by
  unfold Registry.truncate
  rw [hmodels, List.drop_left]
  obtain ⟨hremoved, hbefore⟩ := h.foldr_remove hmodels
  exact ⟨hremoved.dropEmptyCollections, hbefore⟩

/-! ## Registering lists of models -/

theorem registerEach (h : registry.Consistent) {candidates : List Candidate}
    (hadmissible : ∀ candidate ∈ candidates, candidate.Admissible) :
    (registry.registerEach candidates).1.Consistent ∧
      ∃ added, (registry.registerEach candidates).1.models = registry.models ++ added := by
  refine registerEach_keeps
    (fun next => next.Consistent ∧ ∃ added, next.models = registry.models ++ added) ?_
    ⟨h, [], (List.append_nil _).symm⟩
  rintro before candidate next model hmem ⟨hbefore, added, hadded⟩ hregister
  obtain ⟨hnext, hmodels⟩ := hbefore.register (hadmissible candidate hmem) hregister
  rw [hadded, List.append_assoc] at hmodels
  exact ⟨hnext, added ++ [model], hmodels⟩

theorem registerAll (h : registry.Consistent) {candidates : List Candidate}
    (hadmissible : ∀ candidate ∈ candidates, candidate.Admissible) :
    (registry.registerAll candidates).1.Consistent := by
  obtain ⟨hextended, added, hadded⟩ := h.registerEach hadmissible
  unfold Registry.registerAll
  cases hresult : registry.registerEach candidates with
  | mk extended outcome =>
      rw [hresult] at hextended hadded
      cases outcome with
      | error e => exact (hextended.truncate hadded).1
      | ok models => exact hextended

end Consistent

end Registry

end RecordStore
