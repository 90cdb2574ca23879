import RecordStore.Proofs.Scope.Portraits

/-!
# Actions that keep scopes mirrored

As long as nothing comes into a scope but its own rows, everything that is done in it keeps it mirrored
(`Scope.Aligned`): records are made and loaded, looked up, changed, deleted and flushed, whether that
succeeds or fails.
-/

namespace RecordStore

namespace Scope

variable {env : Environment} {deleted : List (String × UInt64)} {scope after : Scope} {handle : Handle}
  {model : Model}

/-- The records of a scope are mirrored in rows that are sound and numbered. -/
structure Aligned (env : Environment) (deleted : List (String × UInt64)) (scope : Scope) : Prop where
  anchored : scope.Anchored env deleted
  mirrored : scope.Mirrored env

/-! ## Records that come and go -/

theorem create_mirrored (h : scope.Mirrored env) (name : String) :
    (create env name).Ends scope (fun _ after => after.Mirrored env)
      (fun after => after.Mirrored env) := by
  refine (create_cases env scope name).mono ?_ ?_
  · rintro _ _ ⟨model, -, rfl⟩
    refine h.appendAs ⟨Record.whole_new _ _, ?_, ?_⟩ scope.identity
    · intro _ column hcolumn _ _ _
      exact Record.find?_new _ hcolumn
    · intro hstate
      cases hstate
  · rintro _ rfl
    exact h

/-- A loaded record reflects the row that it was loaded from. -/
theorem materialize_mirrored (hregistry : env.registry.Consistent)
    (hcount : ∀ model ∈ env.registry.models, model.columns.length < 4294967296)
    (hanchored : scope.Anchored env deleted) (h : scope.Mirrored env)
    (hmodel : model ∈ env.registry.models) {id : Int64} {row : StoredRow}
    (hrow : scope.visibleRow env model.tableName id.toUInt64 = .ok (some row)) :
    (materialize env model id row).Ends scope (fun _ after => after.Mirrored env)
      (fun after => after.Mirrored env) := by
  obtain ⟨columns, hwrote⟩ := hanchored.rows.written model hmodel _ row hrow
  have hholds := hwrote.holds (hcount model hmodel)
  obtain ⟨_, -, hcompiled⟩ := hregistry.mem_compiled hmodel
  refine materialize_of_fits hcompiled hholds hwrote.fits id ?_ fun _ => h
  intro _ loaded hall
  let record := Record.loaded model (env.registry.collectionNames model.name) id loaded
  have hfaithful : scope.Faithful env { record, state := .persistent } := by
    constructor
    case whole =>
      refine Record.whole_loaded model _ id ?_
      intro pair hpair
      -- The value was loaded from a stored form of its column.
      obtain ⟨stored, hstored, -, column, hcolumn, hload⟩ := exists_of_mem_forall₂ hall.flip hpair
      obtain ⟨other, hother, hname, hadmits⟩ := exists_of_mem_forall₂ hwrote.fits.flip hstored
      rw [hname, hcompiled.column?_eq hother] at hcolumn
      cases hcolumn
      exact hadmits.keyOrdered_of_load hload
    case unset =>
      intro hstate
      cases hstate
    case reflects =>
      intro _ key found others hkey hfound hothers column hcolumn hdata _
      have hkey' : record.id = some key := hkey
      rw [Record.loaded_id] at hkey'
      cases hkey'
      have hsame : record.model = model := Record.loaded_model ..
      change scope.visibleRow env record.model.tableName id.toUInt64 = _ at hfound
      change column ∈ record.model.columns at hcolumn
      rw [hsame] at hfound hcolumn
      rw [hrow] at hfound
      cases hfound
      obtain rfl := hholds.unique hothers
      obtain ⟨value, hvalue, hload⟩ := Record.find?_loaded hcompiled hwrote.fits hall
        (env.registry.collectionNames model.name) id hcolumn hdata
      have hadmits := hwrote.admits_column hcompiled.columns_nodup hcolumn
      exact ⟨value, value, hvalue, hadmits.reloads_of_load hload, .refl column value⟩
  exact h.appendAs hfaithful (scope.identity.insert (model.name, id) scope.entries.length)

theorem delete_mirrored (h : scope.Mirrored env) (handle : Handle) :
    (delete handle).Ends scope (fun _ after => after.Mirrored env)
      (fun after => after.Mirrored env) := by
  unfold delete
  refine ScopeM.ends_entry_bind ?_ h
  intro entry _
  exact ScopeM.ends_modify (h.withdraw handle)

/-! ## Changes of records -/

theorem updateRecord_mirrored (h : scope.Mirrored env) (handle : Handle)
    {f : Record → Except Error Record}
    (hf : ∀ entry, scope.entries[handle]? = some entry → ∀ changed,
      f entry.record = .ok changed → entry.record.Retains changed) :
    (updateRecord handle f).Ends scope (fun _ after => after.Mirrored env)
      (fun after => after.Mirrored env) := by
  refine (updateRecord_cases scope handle f).mono ?_ ?_
  · rintro _ _ ⟨entry, changed, hentry, hchanged, rfl⟩
    refine h.modifyRecord ?_
    intro found hfound
    obtain rfl := Option.some.inj (hentry.symm.trans hfound)
    exact hf entry hentry changed hchanged
  · rintro _ rfl
    exact h

/-- Links may come and go for columns of references. -/
theorem Mirrored.withLinks (h : scope.Mirrored env) {links : SortedMap (Handle × String) Handle}
    (hlinks : ∀ handle column target, links.find? (handle, column) = some target →
      (∃ other, scope.links.find? (handle, column) = some other) ∨
        scope.IsReference handle column) : ({ scope with links } : Scope).Mirrored env :=
  h.transfer rfl (fun _ entry hentry => ⟨entry, hentry, rfl, fun _ hid => hid⟩)
    (fun handle _ hentry => Or.inl ⟨handle, hentry⟩) hlinks

theorem Mirrored.refer (hregistry : env.registry.Consistent) (hrooted : scope.Rooted env)
    (h : scope.Mirrored env) {entry : Entry} (hentry : scope.entries[handle]? = some entry)
    {relationship : Relationship} (hmem : relationship ∈ entry.record.model.relationships)
    (target : Handle) (id : Option Int64) :
    (scope.refer handle relationship.column target id).Mirrored env := by
  obtain ⟨_, hcompiled⟩ := hrooted.compiled hregistry hentry
  unfold Scope.refer
  cases id with
  | some id =>
      refine Mirrored.modifyRecord (h.withLinks ?_) ?_
      · intro other column found hfound
        exact Or.inl ⟨found, (SortedMap.find?_erase_eq_some.1 hfound).2⟩
      · intro found hfound
        obtain rfl := Option.some.inj (hentry.symm.trans hfound)
        exact retains_reference hcompiled ⟨relationship, hmem, rfl⟩ id
  | none =>
      refine Mirrored.modifyRecord (h.withLinks ?_) ?_
      · intro other column found hfound
        rcases SortedMap.find?_insert_eq_some.1 hfound with ⟨hsame, -⟩ | ⟨-, hold⟩
        · cases hsame
          exact Or.inr ⟨entry, hentry, relationship, hmem, rfl⟩
        · exact Or.inl ⟨found, hold⟩
      · intro found _
        exact found.record.retains_markChanged _

theorem setReference_mirrored (hregistry : env.registry.Consistent) (hrooted : scope.Rooted env)
    (h : scope.Mirrored env) (handle : Handle) (field : String) (target : Handle) :
    (setReference handle field target).Ends scope (fun _ after => after.Mirrored env)
      (fun after => after.Mirrored env) := by
  refine (setReference_cases scope handle field target).mono ?_ ?_
  · rintro _ _ ⟨entry, relationship, referred, hentry, hrelationship, -, -, rfl⟩
    exact h.refer hregistry hrooted hentry (relationshipOf_eq_ok hrelationship) target _
  · rintro _ rfl
    exact h

/-! ## Looking records up -/

section

variable (hregistry : env.registry.Consistent)
  (hcount : ∀ model ∈ env.registry.models, model.columns.length < 4294967296)
  (hdefaults : env.registry.OrderedDefaults)

include hregistry hcount

/-- An action that is a chain of moves and keeps the scope mirrored keeps it aligned. -/
theorem Aligned.ends (h : scope.Aligned env deleted) {α : Type} {action : ScopeM α}
    (hreaches : action.Ends scope (fun _ => scope.Reaches env .inside) (scope.Reaches env .inside))
    (hmirrored : action.Ends scope (fun _ after => after.Mirrored env)
      (fun after => after.Mirrored env)) :
    action.Ends scope (fun _ => Aligned env deleted) (Aligned env deleted) :=
  (hreaches.and hmirrored).mono
    (fun _ _ hdone => ⟨h.anchored.reaches hregistry hcount hdone.1, hdone.2⟩)
    fun _ hfailed => ⟨h.anchored.reaches hregistry hcount hfailed.1, hfailed.2⟩

include hdefaults

theorem lookable_aligned (deleted : List (String × UInt64)) :
    Lookable env (Aligned env deleted) where
  consulted scope h :=
    ⟨h.anchored.move hregistry hcount (.steady (steady_consulted env scope true)),
      h.mirrored.of_same rfl rfl rfl⟩
  flush scope h :=
    h.ends hregistry hcount (flush_reaches h.anchored.rooted scope Relation.ReflTransGen.refl)
      ((flush_upheld hregistry hcount hdefaults h.anchored h.mirrored).mono
        (fun _ _ hdone => hdone.1.mirrored) fun _ hfailed => hfailed.mirrored)
  materialize {scope model id row} h hmodel hid hrow hnone := by
    have hlook : Lookable env (scope.Reaches env .inside) := lookable_reaches h.anchored.rooted
    have hmoves := hlook.materialize Relation.ReflTransGen.refl hmodel hid hrow hnone
    refine (hmoves.and (materialize_mirrored hregistry hcount h.anchored h.mirrored hmodel hrow)).mono
      ?_ ?_
    · rintro _ after ⟨⟨hreached, hstaged⟩, hmirrored⟩
      exact ⟨⟨h.anchored.reaches hregistry hcount hreached, hmirrored⟩, hstaged⟩
    · rintro after ⟨hreached, hmirrored⟩
      exact ⟨h.anchored.reaches hregistry hcount hreached, hmirrored⟩

end

end Scope

end RecordStore
