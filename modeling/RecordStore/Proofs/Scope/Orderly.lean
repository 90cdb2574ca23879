import RecordStore.Proofs.Scope.Images
import RecordStore.Proofs.Scope.Reaching

/-!
# Marks and links that make sense

The key of a record is given and not assigned, so it is never marked; and a link leads from the column of
a relationship to a record of its target.  Whatever is done in a scope keeps it so (`Scope.Orderly`), as
long as records that come from outside have no mark on their keys.
-/

namespace RecordStore

namespace Record

variable {find? : String → Option Model} {record : Record} {name : String}

/-- Nothing is marked under the name of the key. -/
def KeyUnmarked (record : Record) : Prop :=
  ∀ key, record.model.primaryKey? = some key → record.isChanged key.name = false

theorem isChanged_of_unchanged (h : record.changed = ∅) (name : String) : record.isChanged name = false := by
  unfold isChanged
  rw [h]
  rfl

theorem keyUnmarked_of_unchanged (h : record.changed = ∅) : record.KeyUnmarked :=
  fun key _ => isChanged_of_unchanged h key.name

namespace KeyUnmarked

theorem of_changed {changed : Record} (h : record.KeyUnmarked) (hmodel : changed.model = record.model)
    (hchanged : changed.changed = record.changed) : changed.KeyUnmarked := by
  intro key hkey
  rw [hmodel] at hkey
  simpa [isChanged, hchanged] using h key hkey

theorem markChanged (h : record.KeyUnmarked)
    (hname : ∀ key, record.model.primaryKey? = some key → name ≠ key.name) :
    (record.markChanged name).KeyUnmarked := by
  intro key hkey
  simp [isChanged_markChanged, (hname key hkey).symm, h key hkey]

end KeyUnmarked

end Record

/-! ## Scopes -/

namespace Scope

variable {env : Environment} {scope before after : Scope} {handle target : Handle} {entry : Entry}
  {column : String}

/-- A column of a record belongs to a relationship whose target is the model of another record. -/
def LeadsTo (scope : Scope) (handle : Handle) (column : String) (target : Handle) : Prop :=
  ∃ entry other, scope.entries[handle]? = some entry ∧ scope.entries[target]? = some other ∧
    ∃ relationship ∈ entry.record.model.relationships,
      relationship.column = column ∧ relationship.target = other.record.modelName

theorem Carries.leadsTo (hcarries : before.Carries after) (h : before.LeadsTo handle column target) :
    after.LeadsTo handle column target := by
  obtain ⟨entry, other, hentry, hother, relationship, hmem, hcolumn, htarget⟩ := h
  obtain ⟨entry', hentry', hmodel, -⟩ := hcarries handle entry hentry
  obtain ⟨other', hother', hmodel', -⟩ := hcarries target other hother
  refine ⟨entry', other', hentry', hother', relationship, hmodel ▸ hmem, hcolumn, ?_⟩
  exact htarget.trans (congrArg Model.name hmodel').symm

/-- No key is marked, and links lead where relationships do. -/
structure Orderly (scope : Scope) : Prop where
  entries : ∀ (handle : Handle) (entry : Entry), scope.entries[handle]? = some entry →
    entry.record.KeyUnmarked
  links : ∀ handle column target, scope.links.find? (handle, column) = some target →
    scope.LeadsTo handle column target

theorem orderly_empty (supply : Supply) : Orderly { supply } where
  entries _ _ h := by cases h
  links _ _ _ h := by cases h

namespace Orderly

/-- What is there afterwards was there before, or is in order for another reason. -/
theorem transfer (h : before.Orderly) (hcarries : before.Carries after)
    (hentries : ∀ (handle : Handle) (entry : Entry), after.entries[handle]? = some entry →
      (∃ other : Handle, before.entries[other]? = some entry) ∨ entry.record.KeyUnmarked)
    (hlinks : ∀ handle column target, after.links.find? (handle, column) = some target →
      before.links.find? (handle, column) = some target ∨ before.LeadsTo handle column target) :
    after.Orderly where
  entries handle entry hentry := by
    rcases hentries handle entry hentry with ⟨other, hold⟩ | hunmarked
    · exact h.entries other entry hold
    · exact hunmarked
  links handle column target hlink := by
    rcases hlinks handle column target hlink with hold | hleads
    · exact hcarries.leadsTo (h.links handle column target hold)
    · exact hcarries.leadsTo hleads

theorem of_same (h : before.Orderly) (hentries : after.entries = before.entries)
    (hlinks : after.links = before.links) : after.Orderly where
  entries handle entry hentry := h.entries handle entry (hentries ▸ hentry)
  links handle column target hlink := by
    obtain ⟨entry, other, hentry, hother, hrelationship⟩ := h.links handle column target (hlinks ▸ hlink)
    exact ⟨entry, other, by rw [hentries, hentry], by rw [hentries, hother], hrelationship⟩

/-- One record changes. -/
theorem modifyRecord (h : scope.Orderly) {f : Record → Record}
    (hf : ∀ entry, scope.entries[handle]? = some entry → (f entry.record).model = entry.record.model ∧
      (∀ id, entry.record.id = some id → (f entry.record).id = some id) ∧
      (f entry.record).KeyUnmarked) : (scope.modifyRecord handle f).Orderly := by
  refine h.transfer ?_ ?_ fun _ _ _ hlink => Or.inl hlink
  · intro other entry hentry
    rw [getElem?_modifyRecord, hentry]
    by_cases hsame : handle = other
    · subst hsame
      obtain ⟨hmodel, hid, -⟩ := hf entry hentry
      exact ⟨{ entry with record := f entry.record }, by simp, hmodel, hid⟩
    · exact ⟨entry, by simp [hsame], rfl, fun _ hid => hid⟩
  · intro other new hnew
    rw [getElem?_modifyRecord] at hnew
    obtain ⟨entry, hentry, rfl⟩ := Option.map_eq_some_iff.1 hnew
    by_cases hsame : handle = other
    · subst hsame
      simpa using Or.inr (hf entry hentry).2.2
    · exact Or.inl ⟨other, by simp [hsame, hentry]⟩

/-- One more record. -/
theorem appendAs (h : scope.Orderly) (hentry : entry.record.KeyUnmarked)
    (identity : SortedMap (String × Int64) Handle) : (scope.appendAs entry identity).Orderly := by
  refine h.transfer (carries_appendAs scope entry identity) ?_ fun _ _ _ hlink => Or.inl hlink
  intro handle other hother
  rcases getElem?_appendAs.1 hother with hold | ⟨-, rfl⟩
  · exact Or.inl ⟨handle, hold⟩
  · exact Or.inr hentry

/-- Links come and go where relationships lead. -/
theorem withLinks (h : scope.Orderly) {links : SortedMap (Handle × String) Handle}
    (hlinks : ∀ handle column target, links.find? (handle, column) = some target →
      scope.links.find? (handle, column) = some target ∨ scope.LeadsTo handle column target) :
    ({ scope with links } : Scope).Orderly :=
  h.transfer (fun _ entry hentry => ⟨entry, hentry, rfl, fun _ hid => hid⟩)
    (fun handle _ hentry => Or.inl ⟨handle, hentry⟩) hlinks

end Orderly

/-! ## What is done in scopes -/

theorem create_orderly (h : scope.Orderly) (name : String) :
    (create env name).Ends scope (fun _ after => after.Orderly) (fun after => after.Orderly) := by
  refine (create_cases env scope name).mono ?_ ?_
  · rintro _ _ ⟨model, -, rfl⟩
    exact h.appendAs (Record.keyUnmarked_of_unchanged rfl) scope.identity
  · rintro _ rfl
    exact h

theorem delete_orderly (h : scope.Orderly) (handle : Handle) :
    (delete handle).Ends scope (fun _ after => after.Orderly) (fun after => after.Orderly) := by
  unfold delete
  refine ScopeM.ends_entry_bind ?_ h
  intro entry hentry
  refine ScopeM.ends_modify (h.transfer (carries_modifyEntry hentry rfl rfl) ?_
    fun _ _ _ hlink => Or.inl hlink)
  intro other new hnew
  obtain ⟨old, hold, rfl⟩ :=
    Option.map_eq_some_iff.1 ((getElem?_modifyEntry scope handle _ other).symm.trans hnew)
  -- The record is the same, wherever it stands.
  refine Or.inr ?_
  by_cases hsame : handle = other <;> simpa [hsame] using h.entries other old hold

theorem updateRecord_orderly (h : scope.Orderly) (handle : Handle) {f : Record → Except Error Record}
    (hf : ∀ entry, scope.entries[handle]? = some entry → ∀ changed, f entry.record = .ok changed →
      changed.model = entry.record.model ∧ changed.id = entry.record.id ∧ changed.KeyUnmarked) :
    (updateRecord handle f).Ends scope (fun _ after => after.Orderly) (fun after => after.Orderly) := by
  refine (updateRecord_cases scope handle f).mono ?_ ?_
  · rintro _ _ ⟨entry, changed, hentry, hchanged, rfl⟩
    refine h.modifyRecord ?_
    intro found hfound
    obtain rfl := Option.some.inj (hentry.symm.trans hfound)
    obtain ⟨hmodel, hid, hunmarked⟩ := hf entry hentry changed hchanged
    exact ⟨hmodel, fun _ hkey => hid.trans hkey, hunmarked⟩
  · rintro _ rfl
    exact h

section

variable (hregistry : env.registry.Consistent) (hrooted : scope.Rooted env) (h : scope.Orderly)

include hregistry hrooted h

/-- A record takes the place of another only if that is of the same model. -/
theorem add_orderly {record : Record} (hmodel : record.model ∈ env.registry.models)
    (hunmarked : record.KeyUnmarked) :
    (add record).Ends scope (fun _ after => after.Orderly) (fun after => after.Orderly) := by
  refine (add_cases scope record).mono ?_ fun _ => False.elim
  rintro _ _ hadds
  cases hadds with
  | enter => exact h.appendAs hunmarked scope.identity
  | adopt => exact h.appendAs hunmarked _
  | replace id handle hid hfind =>
      refine h.modifyRecord ?_
      intro entry hentry
      obtain ⟨hsame, hkey⟩ := hrooted.replaced hregistry hmodel hid hfind hentry
      exact ⟨hsame, fun _ hother => hkey.trans hother, hunmarked⟩

/-- Where a relationship leads, its column may refer to the record. -/
theorem Orderly.refer {relationship : Relationship} {referred : Entry}
    (hentry : scope.entries[handle]? = some entry)
    (hmem : relationship ∈ entry.record.model.relationships)
    (hreferred : scope.entries[target]? = some referred)
    (hfits : referred.record.modelName = relationship.target) (id : Option Int64) :
    (scope.refer handle relationship.column target id).Orderly := by
  obtain ⟨_, hcompiled⟩ := hrooted.compiled hregistry hentry
  have hunmarked := h.entries handle entry hentry
  have hname : ∀ key, entry.record.model.primaryKey? = some key → relationship.column ≠ key.name :=
    fun _ hkey => hcompiled.reference_ne_key hmem hkey
  unfold Scope.refer
  cases id with
  | some id =>
      refine Orderly.modifyRecord (h.withLinks ?_) ?_
      · intro other column found hfound
        exact Or.inl (SortedMap.find?_erase_eq_some.1 hfound).2
      · intro found hfound
        obtain rfl := Option.some.inj (hentry.symm.trans hfound)
        exact ⟨rfl, fun _ hid => hid, Record.KeyUnmarked.markChanged (hunmarked.of_changed rfl rfl) hname⟩
  | none =>
      refine Orderly.modifyRecord (h.withLinks ?_) ?_
      · intro other column found hfound
        rcases SortedMap.find?_insert_eq_some.1 hfound with ⟨hsame, rfl⟩ | ⟨-, hold⟩
        · cases hsame
          exact Or.inr ⟨entry, referred, hentry, hreferred, relationship, hmem, rfl, hfits.symm⟩
        · exact Or.inl hold
      · intro found hfound
        obtain rfl := Option.some.inj (hentry.symm.trans hfound)
        exact ⟨rfl, fun _ hid => hid, hunmarked.markChanged hname⟩

theorem setReference_orderly (handle : Handle) (field : String) (target : Handle) :
    (setReference handle field target).Ends scope (fun _ after => after.Orderly)
      (fun after => after.Orderly) := by
  refine (setReference_cases scope handle field target).mono ?_ ?_
  · rintro _ _ ⟨entry, relationship, referred, hentry, hrelationship, hreferred, hfits, rfl⟩
    exact Orderly.refer hregistry hrooted h hentry (relationshipOf_eq_ok hrelationship) hreferred hfits _
  · rintro _ rfl
    exact h

end

end Scope

end RecordStore
