import RecordStore.Proofs.Scope.Numbering

/-!
# References

Setting a reference, at once or when a flush fills it, changes a column that holds no data, so it is
a step that changes nothing of importance.
-/

namespace RecordStore

namespace Record

theorem isChanged_markChanged (record : Record) (column name : String) :
    (record.markChanged column).isChanged name =
      if name = column then true else record.isChanged name := by
  unfold isChanged markChanged SortedMap.contains
  rw [SortedMap.find?_insert]
  by_cases hname : name = column
  · rw [if_pos hname, if_pos hname]
    rfl
  · rw [if_neg hname, if_neg hname]

/-- Nothing is marked in a record that is not dirty. -/
theorem isChanged_of_clean {record : Record} (h : record.isDirty = false) (name : String) :
    record.isChanged name = false := by
  have hempty : record.changed.isEmpty = true := by simpa [isDirty] using h
  exact SortedMap.contains_eq_false_iff.2 (SortedMap.find?_eq_none_of_isEmpty hempty name)

theorem find?_putValue (record : Record) (column : String) (value : Value) (name : String) :
    (record.putValue column value).values.find? name =
      if name = column then some value else record.values.find? name :=
  SortedMap.find?_insert record.values column name value

end Record

theorem Entry.follows_reference {registry : Registry} (hregistry : registry.Consistent)
    {entry : Entry} (hmodel : entry.record.model ∈ registry.models) {column : String}
    (hreference : ∃ relationship ∈ entry.record.model.relationships, relationship.column = column)
    {record : Record} (hsame : record.model = entry.record.model)
    (hid : record.id = entry.record.id)
    (hchanged : ∀ name, name ≠ column → record.isChanged name = entry.record.isChanged name)
    (hvalues : ∀ name, name ≠ column → record.values.find? name = entry.record.values.find? name) :
    entry.Follows { entry with record } := by
  rcases hregistry.mem_compiled hmodel with ⟨_, -, hcompiled⟩
  rcases hreference with ⟨relationship, hrelationship, hcolumn⟩
  -- No data column has the name of a column that holds references.
  have hother : ∀ data, entry.record.model.DataColumn data → data.name ≠ column := by
    intro data hdata
    rw [← hcolumn]
    exact hdata.name_ne_reference hcompiled hrelationship
  refine ⟨rfl, hsame, hid, ?_, ?_⟩
  · intro data hdata
    exact hchanged data.name (hother data hdata)
  · intro data hdata _
    exact hvalues data.name (hother data hdata)

namespace Scope

variable {env : Environment} {history : History} {scope : Scope} {handle : Handle} {column : String}

theorem Sound.follows_fill (hregistry : env.registry.Consistent) (h : scope.Sound env history)
    (hreference : scope.IsReference handle column) (value : Value) :
    scope.Follows (scope.modifyRecord handle fun record =>
      (record.putValue column value).markChanged column) := by
  rcases hreference with ⟨old, hold, hrelationship⟩
  refine follows_modifyRecord ?_
  intro entry hentry
  rw [hold] at hentry
  cases hentry
  refine Entry.follows_reference hregistry (h.entries handle old hold).registered hrelationship
    rfl rfl ?_ ?_
  · intro name hname
    rw [Record.isChanged_markChanged, if_neg hname]
    rfl
  · intro name hname
    show (old.record.putValue column value).values.find? name = _
    rw [Record.find?_putValue, if_neg hname]

theorem Sound.follows_mark (hregistry : env.registry.Consistent) (h : scope.Sound env history)
    (hreference : scope.IsReference handle column) :
    scope.Follows (scope.modifyRecord handle fun record => record.markChanged column) := by
  rcases hreference with ⟨old, hold, hrelationship⟩
  refine follows_modifyRecord ?_
  intro entry hentry
  rw [hold] at hentry
  cases hentry
  refine Entry.follows_reference hregistry (h.entries handle old hold).registered hrelationship
    rfl rfl ?_ fun _ _ => rfl
  intro name hname
  rw [Record.isChanged_markChanged, if_neg hname]

/-! ## Filling references -/

/-- A link is filled with the key of the record that it leads to, if that has one and is to stay. -/
theorem resolveLink_cases (scope : Scope) (handle : Handle) (column : String) (target : Handle) :
    (resolveLink ((handle, column), target)).Ends scope
      (fun _ after => ∃ id, scope.linkedId? target = some id ∧
        after = scope.modifyRecord handle fun record =>
          (record.putValue column (.integer id)).markChanged column)
      (fun after => after = scope ∧ scope.linkedId? target = none) := by
  unfold resolveLink
  refine ScopeM.ends_get_bind ?_
  cases scope.linkedId? target with
  | none => exact ScopeM.ends_throw ⟨rfl, rfl⟩
  | some id => exact ScopeM.ends_modify ⟨id, rfl, rfl⟩

theorem resolveLink_ends (hregistry : env.registry.Consistent) (h : scope.Sound env history)
    (hreference : scope.IsReference handle column) (target : Handle) :
    (resolveLink ((handle, column), target)).Ends scope (fun _ => scope.Follows) scope.Follows := by
  refine (resolveLink_cases scope handle column target).mono ?_ ?_
  · rintro _ _ ⟨id, -, rfl⟩
    exact h.follows_fill hregistry hreference _
  · rintro _ ⟨rfl, -⟩
    exact .refl _

/-- Links from columns of references may come and go. -/
theorem follows_links {links : SortedMap (Handle × String) Handle}
    (hlinks : ∀ handle column target, links.find? (handle, column) = some target →
      (∃ other, scope.links.find? (handle, column) = some other) ∨
        scope.IsReference handle column) :
    scope.Follows { scope with links } where
  __ := Follows.refl scope
  links := hlinks

theorem follows_erase_link (scope : Scope) (key : Handle × String) :
    scope.Follows { scope with links := scope.links.erase key } := by
  refine follows_links ?_
  intro other column found hfound
  exact Or.inl ⟨found, (SortedMap.find?_erase_eq_some.1 hfound).2⟩

theorem follows_insert_link (hreference : scope.IsReference handle column) (target : Handle) :
    scope.Follows { scope with links := scope.links.insert (handle, column) target } := by
  refine follows_links ?_
  intro other name found hfound
  rcases SortedMap.find?_insert_eq_some.1 hfound with ⟨hsame, -⟩ | ⟨-, hold⟩
  · cases hsame
    exact Or.inr hreference
  · exact Or.inl ⟨found, hold⟩

/-- Filling references changes nothing of importance, however far it comes. -/
theorem resolveLinks_ends (hregistry : env.registry.Consistent) (h : scope.Sound env history) :
    resolveLinks.Ends scope (fun _ => scope.Follows) scope.Follows := by
  unfold resolveLinks
  refine ScopeM.ends_get_bind (ScopeM.ends_set_bind ?_)
  -- The links are forgotten first, whatever becomes of the references.
  have hforget : scope.Follows { scope with links := ∅ } := by
    refine follows_links ?_
    intro _ _ _ hlink
    cases hlink
  refine ScopeM.ends_forM hforget ?_
  rintro ⟨⟨handle, column⟩, target⟩ hlink after hfollows
  have hreference := h.links handle column target (SortedMap.find?_eq_some_iff.2 hlink)
  refine (resolveLink_ends hregistry (h.of_follows hfollows) (hfollows.isReference hreference)
    target).mono ?_ ?_
  · intro _ last hlast
    exact hfollows.trans hlast
  · intro last hlast
    exact hfollows.trans hlast

/-! ## Setting references -/

theorem relationshipOf_eq_ok {record : Record} {field : String} {relationship : Relationship}
    (h : relationshipOf record field = .ok relationship) :
    relationship ∈ record.model.relationships := by
  unfold relationshipOf at h
  cases hfind : record.model.relationship? field with
  | none =>
      simp only [hfind] at h
      cases h
  | some found =>
      simp only [hfind] at h
      cases h
      exact List.mem_of_find?_eq_some hfind

/-- A field is the same relationship in all records of a model. -/
theorem relationshipOf_of_model {record other : Record} {field : String} {relationship : Relationship}
    (hmodel : other.model = record.model) (h : relationshipOf record field = .ok relationship) :
    relationshipOf other field = .ok relationship := by
  unfold relationshipOf at h ⊢
  rw [hmodel]
  cases hfind : record.model.relationship? field with
  | none =>
      simp only [hfind] at h
      cases h
  | some found => simpa only [hfind] using h

/-- The scope in which a column of a record refers to another, which may have a key already. -/
def refer (scope : Scope) (handle : Handle) (column : String) (target : Handle) : Option Int64 → Scope
  | some id =>
      { scope with links := scope.links.erase (handle, column) }.modifyRecord handle fun record =>
        (record.putValue column (.integer id)).markChanged column
  | none =>
      { scope with links := scope.links.insert (handle, column) target }.modifyRecord handle
        fun record => record.markChanged column

/-- A reference can be set when the target is of the model that the relationship leads to. -/
theorem setReference_cases (scope : Scope) (handle : Handle) (field : String) (target : Handle) :
    (setReference handle field target).Ends scope
      (fun _ after => ∃ entry relationship referred, scope.entries[handle]? = some entry ∧
        relationshipOf entry.record field = .ok relationship ∧
        scope.entries[target]? = some referred ∧ referred.record.modelName = relationship.target ∧
        after = scope.refer handle relationship.column target referred.record.id)
      (fun after => after = scope) := by
  unfold setReference
  refine ScopeM.ends_record_bind ?_ rfl
  intro entry hentry
  refine ScopeM.ends_lift_bind ?_ rfl
  intro relationship hrelationship
  refine ScopeM.ends_record_bind ?_ rfl
  intro referred hreferred
  by_cases hname : referred.record.modelName ≠ relationship.target
  · rw [if_pos hname]
    exact ScopeM.ends_throw rfl
  rw [if_neg hname]
  have hfits := not_not.1 hname
  cases hid : referred.record.id with
  | some id =>
      exact ScopeM.ends_modify ⟨entry, relationship, referred, hentry, hrelationship, hreferred, hfits,
        by rw [hid]; rfl⟩
  | none =>
      exact ScopeM.ends_modify ⟨entry, relationship, referred, hentry, hrelationship, hreferred, hfits,
        by rw [hid]; rfl⟩

theorem Sound.follows_refer (hregistry : env.registry.Consistent) (h : scope.Sound env history)
    (hreference : scope.IsReference handle column) (target : Handle) (id : Option Int64) :
    scope.Follows (scope.refer handle column target id) := by
  cases id with
  | some id =>
      have hlinks := follows_erase_link scope (handle, column)
      exact hlinks.trans ((h.of_follows hlinks).follows_fill hregistry (hlinks.isReference hreference) _)
  | none =>
      have hlinks := follows_insert_link hreference target
      exact hlinks.trans ((h.of_follows hlinks).follows_mark hregistry (hlinks.isReference hreference))

theorem setReference_ends (hregistry : env.registry.Consistent) (h : scope.Sound env history)
    (handle : Handle) (field : String) (target : Handle) :
    (setReference handle field target).Ends scope (fun _ => scope.Follows) scope.Follows := by
  refine (setReference_cases scope handle field target).mono ?_ ?_
  · rintro _ _ ⟨entry, relationship, referred, hentry, hrelationship, -, -, rfl⟩
    exact h.follows_refer hregistry
      ⟨entry, hentry, relationship, relationshipOf_eq_ok hrelationship, rfl⟩ target _
  · rintro _ rfl
    exact .refl _

end Scope

end RecordStore
