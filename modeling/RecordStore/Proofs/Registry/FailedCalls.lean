import RecordStore.Proofs.Registry.Calls

/-!
# Calls that fail

A call that is to register several models registers them one after the other, and takes back those
before the one that fails.  What is taken back is found again by names, in the indexes and in the
collections at models that stay.

That nothing else goes and nothing is left over does not follow from the list of models alone: a registry
is determined by its models (`Consistent.eq_of_models`) when its indexes say what the models say and no
collection is kept that holds nothing (`Registry.Tidy`).  Both hold of every registry that calls have
made, so a failed call leaves exactly the registry that it was made to (`failed_call_changes_nothing`).
-/

namespace RecordStore

namespace Registry

/-- No collection is kept that holds nothing. -/
def Tidy (registry : Registry) : Prop :=
  ∀ target, registry.collections.find? target ≠ some []

theorem tidy_empty : Tidy {} := by
  intro target h
  cases h

/-! ## What keeps a registry tidy -/

theorem find?_addCollection_ne_nil {collections : SortedMap String (List BackReference)}
    (h : ∀ target, collections.find? target ≠ some []) (entry : String × BackReference)
    (target : String) : (addCollection collections entry).find? target ≠ some [] := by
  unfold addCollection
  rw [SortedMap.find?_insert]
  by_cases htarget : target = entry.1
  · rw [if_pos htarget]
    simp
  · rw [if_neg htarget]
    exact h target

theorem find?_foldl_addCollection_ne_nil {additions : List (String × BackReference)}
    {collections : SortedMap String (List BackReference)}
    (h : ∀ target, collections.find? target ≠ some []) (target : String) :
    (additions.foldl addCollection collections).find? target ≠ some [] := by
  induction additions generalizing collections with
  | nil => exact h target
  | cons entry rest ih => exact ih (find?_addCollection_ne_nil h entry)

theorem tidy_dropEmptyCollections (registry : Registry) : registry.dropEmptyCollections.Tidy := by
  intro target h
  unfold Registry.dropEmptyCollections at h
  rw [SortedMap.find?_filter, Option.filter_eq_some_iff] at h
  cases h.2

namespace Tidy

variable {registry : Registry}

theorem register (h : registry.Tidy) {candidate : Candidate} {registry' : Registry} {model : Model}
    (hregister : registry.register candidate = .ok (registry', model)) : registry'.Tidy := by
  obtain ⟨blueprint, names, compiled, -, -, -, -, -, hadd⟩ := of_register hregister
  cases hadd
  exact find?_foldl_addCollection_ne_nil h

theorem registerEach (h : registry.Tidy) (candidates : List Candidate) :
    (registry.registerEach candidates).1.Tidy :=
  registerEach_keeps Tidy (fun _ _ _ _ _ hbefore hregister => hbefore.register hregister) h

theorem registerAll (h : registry.Tidy) (candidates : List Candidate) :
    (registry.registerAll candidates).1.Tidy := by
  have hextended := h.registerEach candidates
  unfold Registry.registerAll
  cases hresult : registry.registerEach candidates with
  | mk extended outcome =>
      rw [hresult] at hextended
      cases outcome with
      | error e => exact tidy_dropEmptyCollections _
      | ok models => exact hextended

theorem after_register (h : registry.Tidy) (candidate : Candidate) :
    (registry.after (.register candidate)).Tidy := by
  unfold Registry.after
  cases hregister : registry.register candidate with
  | error e =>
      simp only [hregister]
      exact h
  | ok result =>
      simp only [hregister]
      exact h.register hregister

theorem after (h : registry.Tidy) (call : Call) : (registry.after call).Tidy := by
  cases call with
  | register candidate => exact h.after_register candidate
  | registerAll candidates => exact h.registerAll candidates
  | create name base fields table related extra => exact h.after_register (.declaration _)

theorem foldl_after (h : registry.Tidy) (calls : List Call) :
    (calls.foldl Registry.after registry).Tidy :=
  List.foldlRecOn calls Registry.after h fun _ hbefore call _ => hbefore.after call

/-- A collection is kept where there are references, and nowhere else. -/
theorem find?_collections (h : registry.Tidy) (target : String) :
    registry.collections.find? target =
      if registry.backReferences target = [] then none
      else some (registry.backReferences target) := by
  have hnever := h target
  unfold backReferences
  cases hfind : registry.collections.find? target with
  | none => rfl
  | some references =>
      rw [hfind] at hnever
      have hsome : references ≠ [] := fun hnil => hnever (congrArg some hnil)
      exact (if_neg hsome).symm

end Tidy

/-! ## Registries with the same models -/

namespace Consistent

variable {registry : Registry}

/-- The models of a registry determine all that it keeps beside them. -/
theorem eq_of_models (h : registry.Consistent) (htidy : registry.Tidy) {other : Registry}
    (hother : other.Consistent) (htidy' : other.Tidy) (hmodels : other.models = registry.models) :
    other = registry := by
  -- The parts are maps, and each look-up in them is a question about the models.
  have hnames : other.byName = registry.byName := by
    apply SortedMap.ext_find?
    intro name
    apply Option.ext
    intro place
    rw [hother.byName_iff, h.byName_iff, hmodels]
  have htables : other.byTable = registry.byTable := by
    apply SortedMap.ext_find?
    intro table
    apply Option.ext
    intro owner
    rw [hother.byTable_iff, h.byTable_iff, hmodels]
  have hcollections : other.collections = registry.collections := by
    apply SortedMap.ext_find?
    intro target
    rw [htidy'.find?_collections, htidy.find?_collections, hother.backReferences_eq,
      h.backReferences_eq, hmodels]
  cases other
  cases registry
  simp only at hmodels hnames htables hcollections
  rw [hmodels, hnames, htables, hcollections]

/-- Models that were registered before one that fails are taken back without a trace. -/
theorem registerAll_of_error (h : registry.Consistent) (htidy : registry.Tidy)
    {candidates : List Candidate} (hadmissible : ∀ candidate ∈ candidates, candidate.Admissible)
    {error : Error} (herror : (registry.registerAll candidates).2 = .error error) :
    (registry.registerAll candidates).1 = registry := by
  obtain ⟨hextended, added, hadded⟩ := h.registerEach hadmissible
  unfold Registry.registerAll at herror ⊢
  cases hresult : registry.registerEach candidates with
  | mk extended outcome =>
      rw [hresult] at hextended hadded
      simp only [hresult] at herror ⊢
      cases outcome with
      | ok models => cases herror
      | error e =>
          -- All that is known of what is left are its models; the rest follows from them.
          obtain ⟨hback, hmodels⟩ := hextended.truncate hadded
          exact h.eq_of_models htidy hback (tidy_dropEmptyCollections _) hmodels

end Consistent

/-! ## Answers -/

/-- What a call answers: the models that it has registered, or why it has registered none. -/
def answer (registry : Registry) : Call → Except Error (List Model)
  | .register candidate => do
      let (_, model) ← registry.register candidate
      return [model]
  | .registerAll candidates => (registry.registerAll candidates).2
  | .create name base fields table related extra => do
      let (_, model) ← registry.create name base fields table related extra
      return [model]

theorem after_register_of_error {registry : Registry} {candidate : Candidate} {error : Error}
    (h : registry.answer (.register candidate) = .error error) :
    registry.after (.register candidate) = registry := by
  rcases bind_eq_error.1 h with hregister | ⟨⟨_, model⟩, -, hlast⟩
  · unfold Registry.after
    simp only [hregister]
  · cases hlast

theorem Consistent.after_of_error {registry : Registry} (h : registry.Consistent)
    (htidy : registry.Tidy) {call : Call} (hadmissible : call.Admissible) {error : Error}
    (herror : registry.answer call = .error error) : registry.after call = registry := by
  cases call with
  | register candidate => exact after_register_of_error herror
  | registerAll candidates => exact h.registerAll_of_error htidy hadmissible herror
  | create name base fields table related extra =>
      exact @after_register_of_error registry (.declaration _) error herror

end Registry

/-- Whatever calls have made a registry: a further call that fails, be it at its first model or after
others, leaves exactly this registry, with its models, its indexes and the collections at every model.
So every call that would have succeeded before succeeds with the same models. -/
theorem failed_call_changes_nothing (calls : List Registry.Call)
    (hcalls : ∀ call ∈ calls, call.Admissible) (call : Registry.Call) (hcall : call.Admissible)
    (error : Error) :
    let registry := calls.foldl Registry.after {}
    registry.answer call = .error error →
      registry.after call = registry ∧
        ∀ next models, registry.answer next = .ok models →
          (registry.after call).answer next = .ok models := by
  intro registry herror
  have hconsistent : registry.Consistent := Registry.consistent_empty.foldl_after hcalls
  have htidy : registry.Tidy := Registry.tidy_empty.foldl_after calls
  have hsame := hconsistent.after_of_error htidy hcall herror
  refine ⟨hsame, ?_⟩
  intro next models hnext
  rw [hsame]
  exact hnext

/-- Two models that refer to a registered one, of which the second also refers to the first, and a third
one of a table that is taken: nothing of them is left. -/
theorem failed_call_changes_nothing_taken_back :
    let calls : List Registry.Call := [
      .register (.declaration {
        name := "Author", tableName := some "authors", relatedName := some "all" })]
    let registry := calls.foldl Registry.after {}
    let call : Registry.Call := .registerAll [
      .declaration {
        name := "Book", tableName := some "books", relatedName := some "books"
        overrides := [("writer", .typed (.reference "Author"))] },
      .declaration {
        name := "Review", tableName := some "reviews", relatedName := some "reviews"
        overrides := [("book", .typed (.reference "Book")), ("critic", .typed (.reference "Author"))] },
      .declaration {
        name := "Copy", tableName := some "authors", relatedName := some "copies" }]
    (∀ call ∈ calls, call.Admissible) ∧ call.Admissible ∧
      registry.answer call = .error (.duplicateTable "Copy" "authors" "Author") ∧
      registry.after call = registry := by
  intro calls registry call
  have hcalls : ∀ call ∈ calls, call.Admissible := by
    simp [calls, Registry.Call.Admissible, Candidate.Admissible, Blueprint.Composed.base]
  have hcall : call.Admissible := by
    simp [call, Registry.Call.Admissible, Candidate.Admissible, Blueprint.Composed.base]
  have herror : registry.answer call = .error (.duplicateTable "Copy" "authors" "Author") := by
    rfl
  exact ⟨hcalls, hcall, herror, (failed_call_changes_nothing calls hcalls call hcall _ herror).1⟩

end RecordStore
