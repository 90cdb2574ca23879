import RecordStore.Proofs.Registry.Consistency

/-!
# Registries after calls

Registries come from an empty one by calls that register models.  A call may fail, and the registry
it leaves behind counts as well.  `registry_after_calls` says all that holds of the indexes and of
the models of every such registry.
-/

namespace RecordStore

namespace Registry

/-- A call that is to register models. -/
inductive Call where
  | register (candidate : Candidate)
  | registerAll (candidates : List Candidate)
  | create (name : String) (base : Blueprint) (fields : List (String × FieldType))
      (table related : String) (extra : SortedMap String Value)

/-- What the call hands in comes from composition. -/
def Call.Admissible : Call → Prop
  | register candidate => candidate.Admissible
  | registerAll candidates => ∀ candidate ∈ candidates, candidate.Admissible
  | create _ base _ _ _ _ => base.Composed

/-- The registry that a call leaves behind, whether it succeeds or fails. -/
def after (registry : Registry) : Call → Registry
  | .register candidate =>
      match registry.register candidate with
      | .ok (next, _) => next
      | .error _ => registry
  | .registerAll candidates => (registry.registerAll candidates).1
  | .create name base fields table related extra =>
      match registry.create name base fields table related extra with
      | .ok (next, _) => next
      | .error _ => registry

namespace Consistent

variable {registry : Registry}

theorem after_register (h : registry.Consistent) {candidate : Candidate}
    (hadmissible : candidate.Admissible) : (registry.after (.register candidate)).Consistent := by
  unfold Registry.after
  cases hregister : registry.register candidate with
  | error e =>
      simp only [hregister]
      exact h
  | ok result =>
      simp only [hregister]
      exact (h.register hadmissible hregister).1

theorem after (h : registry.Consistent) {call : Call} (hadmissible : call.Admissible) :
    (registry.after call).Consistent := by
  cases call with
  | register candidate => exact h.after_register hadmissible
  | registerAll candidates => exact h.registerAll hadmissible
  | create name base fields table related extra =>
      -- Creating a model is registering a declaration over the base.
      exact @after_register registry h (.declaration _) hadmissible

theorem foldl_after (h : registry.Consistent) {calls : List Call}
    (hadmissible : ∀ call ∈ calls, call.Admissible) :
    (calls.foldl Registry.after registry).Consistent := by
  induction calls generalizing registry with
  | nil => exact h
  | cons call rest ih =>
      refine ih (h.after (hadmissible call List.mem_cons_self)) ?_
      intro other hother
      exact hadmissible other (List.mem_cons_of_mem _ hother)

/-- A relationship leads to a model that was registered earlier, by a column that is a foreign key
to the table and the primary key of that model. -/
theorem relationship_target (h : registry.Consistent) {place : Nat} {source : Model}
    (hsource : registry.models[place]? = some source) {relationship : Relationship}
    (hmem : relationship ∈ source.relationships) :
    ∃ earlier target key column, earlier < place ∧ registry.models[earlier]? = some target ∧
      relationship.target = target.name ∧ target.primaryKey? = some key ∧
      source.column? relationship.column = some column ∧
      column.foreignKey = some {
        column := relationship.column
        table := target.tableName
        targetColumn := key.name } := by
  have hcompiled := h.compiled place source hsource
  obtain ⟨name, target, hfind, htarget, column, hcolumn, hname, hforeign⟩ :=
    hcompiled.relationship_column hmem
  -- The target was known when its source was compiled, so it stands at an earlier place.
  have hknown : target ∈ registry.models.take place := List.mem_of_find?_eq_some hfind
  obtain ⟨earlier, hearlier, hget⟩ := List.mem_take_iff_getElem.1 hknown
  have hplace : registry.models[earlier]? = some target := by
    rw [List.getElem?_eq_some_iff]
    exact ⟨by omega, hget⟩
  have hkey := (h.compiled earlier target hplace).primaryKey?_eq
  refine ⟨earlier, target, _, column, by omega, hplace, htarget, hkey, ?_, ?_⟩
  · rw [← hname]
    exact hcompiled.column?_eq hcolumn
  · rw [hforeign, hkey]
    rfl

end Consistent

end Registry

/-- Whatever calls were made to an empty registry, and whether they succeeded or failed: names and
tables of models are distinct, the indexes by name and by table say what the models say, every
relationship leads to an earlier model by a foreign key to its table and primary key, and the
collections at a name are those of the reference fields to it, in the order of registration and then
of fields. -/
theorem registry_after_calls (calls : List Registry.Call)
    (hadmissible : ∀ call ∈ calls, call.Admissible) :
    let registry := calls.foldl Registry.after {}
    (registry.models.map (·.name)).Nodup ∧
    (registry.models.map (·.tableName)).Nodup ∧
    (∀ name model, registry.find? name = some model ↔
      model ∈ registry.models ∧ model.name = name) ∧
    (∀ table owner, registry.byTable.find? table = some owner ↔
      ∃ model ∈ registry.models, model.tableName = table ∧ model.name = owner) ∧
    (∀ (place : Nat) (source : Model), registry.models[place]? = some source →
      ∀ relationship ∈ source.relationships, ∃ earlier target key column,
        earlier < place ∧ registry.models[earlier]? = some target ∧
        relationship.target = target.name ∧ target.primaryKey? = some key ∧
        source.column? relationship.column = some column ∧
        column.foreignKey = some {
          column := relationship.column
          table := target.tableName
          targetColumn := key.name }) ∧
    (∀ target, registry.backReferences target =
      registry.models.flatMap (·.referencesTo target)) := by
  intro registry
  have h : registry.Consistent := Registry.consistent_empty.foldl_after hadmissible
  refine ⟨h.names_nodup, h.tables_nodup, ?_, h.byTable_iff, ?_, h.backReferences_eq⟩
  · intro name model
    exact h.find?_eq_some_iff
  · intro place source hsource relationship hmem
    exact h.relationship_target hsource hmem

/-- A model, a failing list whose first model has to be taken back, and a model that refers to the
first: two models remain, and one collection. -/
theorem registry_after_calls_taken_back :
    let calls : List Registry.Call := [
      .register (.declaration {
        name := "Author", tableName := some "authors", relatedName := some "all" }),
      .registerAll [
        .declaration {
          name := "Draft", tableName := some "drafts", relatedName := some "drafts"
          overrides := [("writer", .typed (.reference "Author"))] },
        .declaration {
          name := "Copy", tableName := some "authors", relatedName := some "copies" }],
      .create "Book" .base [("writer", .reference "Author")] "books" "books" ∅]
    let registry := calls.foldl Registry.after {}
    (∀ call ∈ calls, call.Admissible) ∧
    registry.models.map (fun model => (model.name, model.tableName)) =
      [("Author", "authors"), ("Book", "books")] ∧
    registry.backReferences "Author" = [{
      name := "books", source := "Book", relationship := "writer", column := "_writer_id" }] ∧
    ∃ model, registry.find? "Book" = some model ∧ model ∈ registry.models := by
  intro calls registry
  have hadmissible : ∀ call ∈ calls, call.Admissible := by
    simp [calls, Registry.Call.Admissible, Candidate.Admissible, Blueprint.Composed.base]
  have h := registry_after_calls calls hadmissible
  have hmodels : registry.models.map (fun model => (model.name, model.tableName)) =
      [("Author", "authors"), ("Book", "books")] := by
    decide +kernel
  refine ⟨hadmissible, hmodels, ?_, ?_⟩
  · rw [h.2.2.2.2.2 "Author"]
    decide +kernel
  · have hbook : ("Book", "books") ∈
        registry.models.map (fun model => (model.name, model.tableName)) := by
      rw [hmodels]
      decide
    obtain ⟨model, hmem, heq⟩ := List.mem_map.1 hbook
    exact ⟨model, (h.2.2.1 "Book" model).2 ⟨hmem, congrArg Prod.fst heq⟩, hmem⟩

end RecordStore
