import RecordStore.Proofs.Outcome
import RecordStore.Schema.Blueprint

/-!
# Fields of composed blueprints

Blueprints come from composition only (`Blueprint.Composed`).  Whatever the chain of declarations
was, the fields of a composed blueprint start with the key, have distinct names, and keep clear of
the names of generated columns (`Blueprint.Composed.fieldsSound`).
-/

namespace RecordStore

/-- The blueprints that can be made: the base, and what a declaration composes over such a
blueprint. -/
inductive Blueprint.Composed : Blueprint → Prop where
  | base : Composed .base
  | compose {declaration : Declaration} {blueprint : Blueprint} :
      Composed declaration.ancestor → declaration.compose = .ok blueprint → Composed blueprint

/-- What composition keeps true of fields. -/
structure FieldsSound (fields : List (String × FieldType)) : Prop where
  key_first : ∃ rest, fields = ("id", .primaryKey) :: rest
  names_nodup : (fields.map (·.1)).Nodup
  unreserved : ∀ field ∈ fields, isReserved field.1 = false

/-- A field is filled in its place or added at the end. -/
theorem defineField?_cases {name : String} {type : FieldType}
    {fields fields' : List (String × FieldType)}
    (h : defineField? name type fields = some fields') :
    fields'.map (·.1) = fields.map (·.1) ∨
      (name ∉ fields.map (·.1) ∧ fields' = fields ++ [(name, type)]) := by
  induction fields generalizing fields' with
  | nil =>
      cases h
      exact Or.inr ⟨by simp, rfl⟩
  | cons field rest ih =>
      obtain ⟨other, old⟩ := field
      unfold defineField? at h
      by_cases hname : other = name
      · rw [if_pos hname] at h
        by_cases hold : old.isAbstract = true
        · rw [if_pos hold] at h
          cases h
          exact Or.inl rfl
        · rw [if_neg hold] at h
          cases h
      · rw [if_neg hname] at h
        obtain ⟨rest', hrest, rfl⟩ := Option.map_eq_some_iff.1 h
        rcases ih hrest with hsame | ⟨hnew, rfl⟩
        · refine Or.inl ?_
          simp [hsame]
        · refine Or.inr ⟨?_, rfl⟩
          rw [List.map_cons, List.mem_cons, not_or]
          exact ⟨fun heq => hname heq.symm, hnew⟩

theorem FieldsSound.define {fields fields' : List (String × FieldType)} {name : String}
    {type : FieldType} (hsound : FieldsSound fields) (hname : isReserved name = false)
    (h : defineField? name type fields = some fields') : FieldsSound fields' := by
  obtain ⟨rest, rfl⟩ := hsound.key_first
  have hkey : ∃ rest', fields' = ("id", .primaryKey) :: rest' := by
    -- The key is not abstract, so it is never filled.
    unfold defineField? at h
    by_cases hid : "id" = name
    · rw [if_pos hid] at h
      cases h
    · rw [if_neg hid] at h
      obtain ⟨rest', -, rfl⟩ := Option.map_eq_some_iff.1 h
      exact ⟨rest', rfl⟩
  rcases defineField?_cases h with hsame | ⟨hnew, rfl⟩
  · refine ⟨hkey, ?_, ?_⟩
    · rw [hsame]
      exact hsound.names_nodup
    -- A field that was filled keeps its name, which was not reserved before.
    · intro field hfield
      have hmem : field.1 ∈ fields'.map (·.1) := List.mem_map_of_mem hfield
      rw [hsame] at hmem
      obtain ⟨old, hold, heq⟩ := List.mem_map.1 hmem
      rw [← heq]
      exact hsound.unreserved old hold
  · refine ⟨hkey, ?_, ?_⟩
    · rw [List.map_append]
      refine List.nodup_append.2 ⟨hsound.names_nodup, by simp, ?_⟩
      rintro a ha b hb rfl
      obtain rfl := List.mem_singleton.1 hb
      exact hnew ha
    · intro field hfield
      rcases List.mem_append.1 hfield with hold | hadded
      · exact hsound.unreserved field hold
      · obtain rfl := List.mem_singleton.1 hadded
        exact hname

/-- What an accepted override has checked. -/
theorem applyOverride_eq_ok {model : String} {fields fields' : List (String × FieldType)}
    {override : String × FieldDeclaration} (h : applyOverride model fields override = .ok fields') :
    override.1 ≠ "" ∧ isReserved override.1 = false ∧
      ∃ type, defineField? override.1 type fields = some fields' := by
  obtain ⟨name, declared⟩ := override
  unfold applyOverride at h
  by_cases hempty : name.isEmpty = true
  · simp only [hempty, if_true] at h
    cases h
  · by_cases hreserved : isReserved name = true
    · simp only [hempty, hreserved, if_true] at h
      cases h
    · simp only [hempty, hreserved, if_false, Bool.false_eq_true] at h
      obtain ⟨type, -, h⟩ := bind_eq_ok.1 h
      cases hdefine : defineField? name type fields with
      | none =>
          rw [hdefine] at h
          cases h
      | some defined =>
          rw [hdefine] at h
          obtain rfl := pure_eq_ok.1 h
          exact ⟨fun hname => hempty (String.isEmpty_iff.2 hname), by simpa using hreserved,
            type, hdefine⟩

theorem FieldsSound.applyOverride {model : String} {fields fields' : List (String × FieldType)}
    {override : String × FieldDeclaration} (hsound : FieldsSound fields)
    (h : applyOverride model fields override = .ok fields') : FieldsSound fields' := by
  obtain ⟨-, hreserved, type, hdefine⟩ := applyOverride_eq_ok h
  exact hsound.define hreserved hdefine

namespace Blueprint

theorem base_fieldsSound : FieldsSound Blueprint.base.fields where
  key_first := ⟨_, rfl⟩
  names_nodup := by decide
  unreserved := by decide

/-- What a successful composition has resolved and checked. -/
theorem compose_eq_ok {declaration : Declaration} {blueprint : Blueprint}
    (h : declaration.compose = .ok blueprint) :
    declaration.resolveNames = .ok blueprint.names ∧
      declaration.resolveFields = .ok blueprint.fields ∧
        (declaration.isAbstract = false →
          ∀ field ∈ blueprint.fields, field.2.isAbstract = false) := by
  obtain ⟨names, hnames, h⟩ := bind_eq_ok.1 h
  obtain ⟨fields, hfields, h⟩ := bind_eq_ok.1 h
  cases hfind : fields.find? fun entry => entry.2.isAbstract && !declaration.isAbstract with
  | some entry =>
      rw [hfind] at h
      cases h
  | none =>
      rw [hfind] at h
      obtain rfl := pure_eq_ok.1 h
      refine ⟨hnames, hfields, fun hconcrete field hfield => ?_⟩
      simpa [hconcrete] using List.find?_eq_none.1 hfind field hfield

theorem fields_of_compose {declaration : Declaration} {blueprint : Blueprint}
    (h : declaration.compose = .ok blueprint) :
    declaration.resolveFields = .ok blueprint.fields :=
  (compose_eq_ok h).2.1

theorem Composed.fieldsSound {blueprint : Blueprint} (h : blueprint.Composed) :
    FieldsSound blueprint.fields := by
  induction h with
  | base => exact base_fieldsSound
  | compose _ hcompose ih =>
      -- The fields of the ancestor go through all overrides, one after the other.
      refine foldlM_invariant ?_ ih (fields_of_compose hcompose)
      intro override _ fields fields' hsound hstep
      exact hsound.applyOverride hstep

end Blueprint

end RecordStore
