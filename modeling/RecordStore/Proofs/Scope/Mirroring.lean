import RecordStore.Proofs.Records.Retaining
import RecordStore.Proofs.Scope.Intact
import RecordStore.Proofs.Scope.Reaching

/-!
# Scopes that mirror their rows

A scope is mirrored (`Scope.Mirrored`) when its records are whole, its new records hold nothing where
nothing was assigned, and its stored records reflect what their rows hold wherever they are not marked.
This depends on the values of records, of which moves say nothing, so what is done to the values is
followed here step by step, up to the images that a flush makes.

A flush changes few values of records that are stored: only references are filled in
(`Scope.KeepsStored`).
-/

namespace RecordStore

/-- The mappings in all defaults have their entries in key order, in which mappings keep them. -/
def Registry.OrderedDefaults (registry : Registry) : Prop :=
  ∀ model ∈ registry.models, ∀ column ∈ model.columns, ∀ value,
    column.default = some (.value value) → value.KeyOrdered

/-- Nothing comes into a scope but its own rows, and records may be deleted. -/
def Terms.inside : Terms where
  grounded := True
  undeleted := False

namespace Scope

variable {env : Environment} {start scope before after last : Scope} {handle : Handle} {entry : Entry}
  {record : Record} {find? : String → Option Model}

/-! ## Records and their rows -/

/-- A record is whole, holds nothing where nothing was assigned while it is new, and reflects its row
where it is not marked once it is stored. -/
structure Faithful (env : Environment) (scope : Scope) (entry : Entry) : Prop where
  whole : entry.record.Whole
  unset : entry.state = .pending → ∀ column ∈ entry.record.model.columns,
    column.primaryKey = false → column.default = none →
      entry.record.isChanged column.name = false →
        entry.record.values.find? column.name = some .null
  reflects : entry.state = .persistent → ∀ id row columns, entry.record.id = some id →
    scope.visibleRow env entry.record.model.tableName id.toUInt64 = .ok (some row) →
      row.Holds columns → ∀ column ∈ entry.record.model.columns,
        column.primaryKey = false → entry.record.isChanged column.name = false →
          entry.record.Reflects column (storedColumn columns column.name)

namespace Faithful

theorem congr (h : before.Faithful env entry) (hstaged : after.staged = before.staged) :
    after.Faithful env entry where
  whole := h.whole
  unset := h.unset
  reflects hstate id row columns hid hrow :=
    h.reflects hstate id row columns hid ((visibleRow_congr (by rw [hstaged])).symm.trans hrow)

theorem retains (h : scope.Faithful env entry) (hretains : entry.record.Retains record) :
    scope.Faithful env { entry with record } where
  whole := hretains.whole h.whole
  unset hstate column hcolumn hdata hdefault hunmarked := by
    refine hretains.null hunmarked ?_
    exact h.unset hstate column (hretains.model ▸ hcolumn) hdata hdefault
      (hretains.unmarked hunmarked)
  reflects hstate id row columns hid hrow hholds column hcolumn hdata hunmarked := by
    have hcolumn' : column ∈ entry.record.model.columns := hretains.model ▸ hcolumn
    have hid' : entry.record.id = some id := hretains.id.symm.trans hid
    have hrow' : scope.visibleRow env entry.record.model.tableName id.toUInt64 = .ok (some row) := by
      rw [← hretains.model]
      exact hrow
    exact hretains.reflects hunmarked (h.reflects hstate id row columns hid' hrow' hholds column
      hcolumn' hdata (hretains.unmarked hunmarked))

/-- A new record gets its key. -/
theorem assignId (h : scope.Faithful env entry) (hcompiled : entry.record.model.Compiled find?)
    (hstate : entry.state = .pending) (id : Int64) :
    scope.Faithful env { entry with record := entry.record.assignId id } where
  whole := h.whole.assignId id
  unset _ column hcolumn hdata hdefault hunmarked := by
    have hcolumn' : column ∈ entry.record.model.columns := entry.record.assignId_model id ▸ hcolumn
    have hunmarked' : entry.record.isChanged column.name = false := by
      unfold Record.isChanged at hunmarked ⊢
      rwa [Record.assignId_changed] at hunmarked
    show (entry.record.assignId id).values.find? column.name = _
    rw [Record.find?_assignId fun key hkey => hcompiled.name_ne_key hcolumn' hdata hkey]
    exact h.unset hstate column hcolumn' hdata hdefault hunmarked'
  reflects hpersistent := by
    rw [hstate] at hpersistent
    cases hpersistent

/-- A new record gets a default. -/
theorem putDefault (h : scope.Faithful env entry) (hcompiled : entry.record.model.Compiled find?)
    (hstate : entry.state = .pending) {column : Column} (hcolumn : column ∈ entry.record.model.columns)
    (hdata : column.primaryKey = false) (hdefault : column.default ≠ none) {value : Value}
    (hordered : value.KeyOrdered) :
    scope.Faithful env { entry with record := entry.record.putValue column.name value } where
  whole := {
    complete := by
      intro other hother
      show ∃ found, (entry.record.putValue column.name value).values.find? other.name = some found
      rw [Record.find?_putValue]
      by_cases hname : other.name = column.name
      · exact ⟨value, if_pos hname⟩
      · rw [if_neg hname]
        exact h.whole.complete other hother
    keyOrdered := by
      intro name found hfound
      change (entry.record.putValue column.name value).values.find? name = _ at hfound
      rw [Record.find?_putValue] at hfound
      by_cases hname : name = column.name
      · rw [if_pos hname] at hfound
        cases hfound
        exact hordered
      · rw [if_neg hname] at hfound
        exact h.whole.keyOrdered name found hfound
    keyed := by
      intro id key hid hkey
      show (entry.record.putValue column.name value).values.find? key.name = _
      rw [Record.find?_putValue, if_neg (hcompiled.name_ne_key hcolumn hdata hkey).symm]
      exact h.whole.keyed id key hid hkey }
  unset _ other hother hdata' hnone hunmarked := by
    -- The column has a default, so it is another one.
    have hname : other.name ≠ column.name := by
      intro heq
      obtain rfl : other = column := List.inj_on_of_nodup_map hcompiled.columns_nodup hother hcolumn heq
      exact hdefault hnone
    show (entry.record.putValue column.name value).values.find? other.name = _
    rw [Record.find?_putValue, if_neg hname]
    exact h.unset hstate other hother hdata' hnone hunmarked
  reflects hpersistent := by
    change entry.state = .persistent at hpersistent
    rw [hstate] at hpersistent
    cases hpersistent

end Faithful

/-! ## Scopes -/

/-- All records of the scope are faithful, and its links are for columns of references. -/
structure Mirrored (env : Environment) (scope : Scope) : Prop where
  entries : ∀ (handle : Handle) (entry : Entry), scope.entries[handle]? = some entry →
    scope.Faithful env entry
  links : ∀ handle column target, scope.links.find? (handle, column) = some target →
    scope.IsReference handle column

theorem mirrored_empty (env : Environment) (supply : Supply) : Mirrored env { supply } where
  entries _ _ h := by cases h
  links _ _ _ h := by cases h

/-- Records that are stored stay so, and only references in them change. -/
def KeepsStored (before after : Scope) : Prop :=
  ∀ (handle : Handle) (entry : Entry), before.entries[handle]? = some entry →
    entry.state = .persistent → ∃ record, after.entries[handle]? = some { entry with record } ∧
      record.model = entry.record.model ∧ record.id = entry.record.id ∧
      ∀ column ∈ entry.record.model.columns, column.foreignKey = none →
        record.values.find? column.name = entry.record.values.find? column.name

theorem keepsStored_refl (scope : Scope) : scope.KeepsStored scope :=
  fun _ entry hentry _ => ⟨entry.record, hentry, rfl, rfl, fun _ _ _ => rfl⟩

namespace Mirrored

/-- What is there afterwards was there before, or is faithful for another reason. -/
theorem transfer (h : before.Mirrored env) (hstaged : after.staged = before.staged)
    (hcarries : before.Carries after)
    (hentries : ∀ (handle : Handle) (entry : Entry), after.entries[handle]? = some entry →
      (∃ other : Handle, before.entries[other]? = some entry) ∨ before.Faithful env entry)
    (hlinks : ∀ handle column target, after.links.find? (handle, column) = some target →
      (∃ other, before.links.find? (handle, column) = some other) ∨
        before.IsReference handle column) : after.Mirrored env where
  entries handle entry hentry := by
    rcases hentries handle entry hentry with ⟨other, hold⟩ | hfaithful
    · exact (h.entries other entry hold).congr hstaged
    · exact hfaithful.congr hstaged
  links handle column target hlink := by
    rcases hlinks handle column target hlink with ⟨other, hold⟩ | hreference
    · exact hcarries.isReference (h.links handle column other hold)
    · exact hcarries.isReference hreference

/-- Nothing changes as long as the records, links and rows stay. -/
theorem of_same (h : before.Mirrored env) (hentries : after.entries = before.entries)
    (hlinks : after.links = before.links) (hstaged : after.staged = before.staged) :
    after.Mirrored env := by
  refine h.transfer hstaged ?_ ?_ ?_
  · intro handle entry hentry
    exact ⟨entry, by rw [hentries, hentry], rfl, fun _ hid => hid⟩
  · intro handle entry hentry
    exact Or.inl ⟨handle, by rw [← hentries, hentry]⟩
  · intro handle column target hlink
    exact Or.inl ⟨target, by rw [← hlinks, hlink]⟩

/-- One record changes. -/
theorem modifyEntry (h : scope.Mirrored env) {f : Entry → Entry}
    (hf : ∀ entry, scope.entries[handle]? = some entry →
      (f entry).record.model = entry.record.model ∧
      (∀ id, entry.record.id = some id → (f entry).record.id = some id) ∧
      scope.Faithful env (f entry)) : (scope.modifyEntry handle f).Mirrored env := by
  refine h.transfer rfl ?_ ?_ fun _ _ target hlink => Or.inl ⟨target, hlink⟩
  · intro other entry hentry
    rw [getElem?_modifyEntry, hentry]
    by_cases hsame : handle = other
    · subst hsame
      obtain ⟨hmodel, hid, -⟩ := hf entry hentry
      exact ⟨f entry, by rw [Option.map_some, if_pos rfl], hmodel, hid⟩
    · exact ⟨entry, by rw [Option.map_some, if_neg hsame], rfl, fun _ hid => hid⟩
  · intro other new hnew
    rw [getElem?_modifyEntry] at hnew
    obtain ⟨entry, hentry, rfl⟩ := Option.map_eq_some_iff.1 hnew
    by_cases hsame : handle = other
    · subst hsame
      rw [if_pos rfl]
      exact Or.inr (hf entry hentry).2.2
    · rw [if_neg hsame]
      exact Or.inl ⟨other, hentry⟩

/-- The values of one record change. -/
theorem modifyRecord (h : scope.Mirrored env) {f : Record → Record}
    (hf : ∀ entry, scope.entries[handle]? = some entry → entry.record.Retains (f entry.record)) :
    (scope.modifyRecord handle f).Mirrored env := by
  refine h.modifyEntry (f := fun entry => { entry with record := f entry.record }) ?_
  intro entry hentry
  have hretains := hf entry hentry
  exact ⟨hretains.model, fun _ hid => hretains.id.trans hid,
    (h.entries handle entry hentry).retains hretains⟩

/-- One more record. -/
theorem appendAs (h : scope.Mirrored env) (hentry : scope.Faithful env entry)
    (identity : SortedMap (String × Int64) Handle) : (scope.appendAs entry identity).Mirrored env := by
  refine h.transfer rfl (carries_appendAs scope entry identity) ?_
    fun _ _ target hlink => Or.inl ⟨target, hlink⟩
  intro handle other hother
  rcases getElem?_appendAs.1 hother with hold | ⟨-, rfl⟩
  · exact Or.inl ⟨handle, hold⟩
  · exact Or.inr hentry

/-- A record that goes away has nothing to reflect. -/
theorem withdraw (h : scope.Mirrored env) (handle : Handle) :
    (scope.withdraw handle).Mirrored env := by
  refine h.modifyEntry fun entry hentry => ⟨rfl, fun _ hid => hid, ?_⟩
  refine ⟨(h.entries handle entry hentry).whole, ?_, ?_⟩
  · intro hstate
    cases hcase : entry.state <;> simp [hcase, Lifecycle.afterDelete] at hstate
  · intro hstate
    cases hcase : entry.state <;> simp [hcase, Lifecycle.afterDelete] at hstate

end Mirrored

/-! ## Scopes into which nothing comes from outside -/

/-- What holds of the rows and keys of a scope into which nothing comes from outside. -/
structure Anchored (env : Environment) (deleted : List (String × UInt64)) (scope : Scope) : Prop where
  rooted : scope.Rooted env
  rows : scope.SoundRows env deleted
  holdsKeys : scope.HoldsKeys env
  keyed : scope.Keyed env

namespace Anchored

variable {deleted : List (String × UInt64)}

theorem move (hregistry : env.registry.Consistent)
    (hcount : ∀ model ∈ env.registry.models, model.columns.length < 4294967296)
    (h : before.Anchored env deleted) (hmove : Move env .inside before after) :
    after.Anchored env deleted where
  rooted := h.rooted.move hmove
  rows := h.rows.move hregistry hcount h.rooted hmove
  holdsKeys := h.holdsKeys.move hregistry hcount h.rooted h.rows hmove
  keyed := h.keyed.move hregistry trivial h.rooted hmove

theorem reaches (hregistry : env.registry.Consistent)
    (hcount : ∀ model ∈ env.registry.models, model.columns.length < 4294967296)
    (h : scope.Anchored env deleted) (hreaches : scope.Reaches env .inside after) :
    after.Anchored env deleted := by
  induction hreaches with
  | refl => exact h
  | tail _ hmove ih => exact ih.move hregistry hcount hmove

end Anchored

/-! ## What a flush does before it stages rows -/

/-- What holds of a scope at any time in a flush, until rows are staged. -/
structure Upheld (env : Environment) (start scope : Scope) : Prop where
  mirrored : scope.Mirrored env
  stored : start.KeepsStored scope

namespace Upheld

theorem refl (h : scope.Mirrored env) : scope.Upheld env scope :=
  ⟨h, keepsStored_refl scope⟩

theorem of_same (h : start.Upheld env scope) (hentries : after.entries = scope.entries)
    (hlinks : after.links = scope.links) (hstaged : after.staged = scope.staged) :
    start.Upheld env after where
  mirrored := h.mirrored.of_same hentries hlinks hstaged
  stored := by
    unfold KeepsStored
    rw [hentries]
    exact h.stored

/-- One record changes, which is new or gets a reference. -/
theorem modifyRecord (h : start.Upheld env scope) {f : Record → Record}
    (hmirrored : (scope.modifyRecord handle f).Mirrored env)
    (hf : ∀ entry, scope.entries[handle]? = some entry → entry.state = .persistent →
      (f entry.record).model = entry.record.model ∧ (f entry.record).id = entry.record.id ∧
      ∀ column ∈ entry.record.model.columns, column.foreignKey = none →
        (f entry.record).values.find? column.name = entry.record.values.find? column.name) :
    start.Upheld env (scope.modifyRecord handle f) where
  mirrored := hmirrored
  stored other old hold hstate := by
    obtain ⟨record, hrecord, hmodel, hid, hvalues⟩ := h.stored other old hold hstate
    rw [getElem?_modifyRecord, hrecord]
    by_cases hsame : handle = other
    · subst hsame
      obtain ⟨hmodel', hid', hvalues'⟩ := hf _ hrecord hstate
      refine ⟨f record, by rw [Option.map_some, if_pos rfl], hmodel'.trans hmodel, hid'.trans hid, ?_⟩
      intro column hcolumn hforeign
      exact (hvalues' column (hmodel ▸ hcolumn) hforeign).trans (hvalues column hcolumn hforeign)
    · exact ⟨record, by rw [Option.map_some, if_neg hsame], hmodel, hid, hvalues⟩

/-- A new record changes. -/
theorem modifyPending (h : start.Upheld env scope) {f : Record → Record}
    (hentry : scope.entries[handle]? = some entry) (hstate : entry.state = .pending)
    (hmodel : (f entry.record).model = entry.record.model)
    (hid : ∀ id, entry.record.id = some id → (f entry.record).id = some id)
    (hfaithful : scope.Faithful env { entry with record := f entry.record }) :
    start.Upheld env (scope.modifyRecord handle f) := by
  refine h.modifyRecord ?_ ?_
  · refine h.mirrored.modifyEntry (f := fun entry => { entry with record := f entry.record }) ?_
    intro found hfound
    obtain rfl := Option.some.inj (hentry.symm.trans hfound)
    exact ⟨hmodel, hid, hfaithful⟩
  · intro found hfound hpersistent
    obtain rfl := Option.some.inj (hentry.symm.trans hfound)
    rw [hstate] at hpersistent
    cases hpersistent

end Upheld

theorem assignId_upheld (hregistry : env.registry.Consistent) (hrooted : scope.Rooted env)
    (h : start.Upheld env scope) (handle : Handle) :
    (assignId env handle).Ends scope (fun _ => start.Upheld env) (start.Upheld env) := by
  have hkept : ∀ after, scope.SameRecords after → start.Upheld env after := fun _ hsame =>
    h.of_same hsame.entries hsame.links hsame.staged
  refine (assignId_outcome scope env handle).mono ?_ fun after hrefused => hkept after hrefused.same
  rintro _ _ (_ | ⟨entry, asked, sequence, current, id, hentry, hnew, hasked, -, -, -⟩)
  · exact h
  · have hadvanced : start.Upheld env (asked.advance sequence (current + 1)) :=
      (hkept asked hasked.same).of_same rfl rfl rfl
    have hentry' : (asked.advance sequence (current + 1)).entries[handle]? = some entry :=
      hasked.same.entries ▸ hentry
    obtain ⟨_, hcompiled⟩ := hrooted.compiled hregistry hentry
    have hgiven : start.Upheld env ((asked.advance sequence (current + 1)).modifyRecord handle
        fun record => record.assignId id) := by
      refine hadvanced.modifyPending hentry' hnew.1 (Record.assignId_model _ id) ?_ ?_
      · intro key hkey
        rw [hnew.2] at hkey
        cases hkey
      · exact (hadvanced.mirrored.entries handle entry hentry').assignId hcompiled hnew.1 id
    exact hgiven.of_same rfl rfl rfl

/-- The column of a relationship is a foreign key and not the key of its table. -/
theorem retains_reference (hcompiled : record.model.Compiled find?) {name : String}
    (hreference : ∃ relationship ∈ record.model.relationships, relationship.column = name)
    (id : Int64) : record.Retains ((record.putValue name (.integer id)).markChanged name) := by
  obtain ⟨relationship, hmem, rfl⟩ := hreference
  exact Record.retains_assign (fun key hkey => hcompiled.reference_ne_key hmem hkey) trivial

theorem resolveLink_upheld (hregistry : env.registry.Consistent) (hrooted : scope.Rooted env)
    (h : start.Upheld env scope) {name : String} (hreference : scope.IsReference handle name)
    (target : Handle) :
    (resolveLink ((handle, name), target)).Ends scope
      (fun _ => start.Upheld env) (start.Upheld env) := by
  refine (resolveLink_cases scope handle name target).mono ?_ ?_
  · rintro _ _ ⟨id, -, rfl⟩
    obtain ⟨entry, hentry, hrelationship⟩ := hreference
    obtain ⟨_, hcompiled⟩ := hrooted.compiled hregistry hentry
    have hretains := retains_reference hcompiled hrelationship id
    refine h.modifyRecord ?_ ?_
    · refine h.mirrored.modifyRecord ?_
      intro found hfound
      obtain rfl := Option.some.inj (hentry.symm.trans hfound)
      exact hretains
    · intro found hfound _
      obtain rfl := Option.some.inj (hentry.symm.trans hfound)
      refine ⟨rfl, rfl, ?_⟩
      intro column hcolumn hforeign
      -- A column of a reference is a foreign key.
      obtain ⟨relationship, hmem, rfl⟩ := hrelationship
      have hname : column.name ≠ relationship.column := by
        intro heq
        obtain ⟨_, _, -, -, other, hother, hname, hkey⟩ := hcompiled.relationship_column hmem
        obtain rfl : column = other := List.inj_on_of_nodup_map hcompiled.columns_nodup hcolumn
          hother (heq.trans hname.symm)
        rw [hforeign] at hkey
        cases hkey
      exact (Record.find?_putValue ..).trans (if_neg hname)
  · rintro _ ⟨rfl, -⟩
    exact h

/-- What holds until rows are staged, of moves and of values together. -/
theorem assignIds_upheld (hregistry : env.registry.Consistent) (hrooted : scope.Rooted env)
    (h : scope.Mirrored env) :
    (assignIds env).Ends scope (fun _ => scope.Upheld env) (scope.Upheld env) := by
  unfold assignIds
  refine ScopeM.ends_get_bind ?_
  have hloop : (scope.handles.forM (assignId env)).Ends scope
      (fun _ after => scope.Reaches env .inside after ∧ scope.Upheld env after)
      (fun after => scope.Reaches env .inside after ∧ scope.Upheld env after) := by
    refine ScopeM.ends_forM ⟨Relation.ReflTransGen.refl, .refl h⟩ ?_
    rintro handle - middle ⟨hreaches, hupheld⟩
    exact (assignId_reaches hrooted handle middle hreaches).and
      (assignId_upheld hregistry (hrooted.reaches hreaches) hupheld handle)
  exact hloop.mono (fun _ _ hdone => hdone.2) fun _ hfailed => hfailed.2

theorem resolveLinks_upheld (hregistry : env.registry.Consistent) (hrooted : scope.Rooted env)
    (h : start.Upheld env scope) :
    resolveLinks.Ends scope (fun _ => start.Upheld env) (start.Upheld env) := by
  unfold resolveLinks
  refine ScopeM.ends_get_bind (ScopeM.ends_set_bind ?_)
  have hforget : start.Upheld env { scope with links := ∅ } := by
    refine ⟨h.mirrored.transfer rfl (fun _ entry hentry => ⟨entry, hentry, rfl, fun _ hid => hid⟩)
      (fun handle entry hentry => Or.inl ⟨handle, hentry⟩) ?_, h.stored⟩
    intro _ _ _ hlink
    cases hlink
  have hloop : (scope.links.toList.forM resolveLink).Ends { scope with links := ∅ }
      (fun _ after => start.Upheld env after ∧ scope.Steady env after) (start.Upheld env) := by
    refine ScopeM.ends_forM ⟨hforget, steady_links env scope ∅⟩ ?_
    rintro ⟨⟨handle, name⟩, target⟩ hmem middle ⟨hupheld, hsteady⟩
    have hreference := hsteady.carries.isReference
      (h.mirrored.links handle name target (SortedMap.find?_eq_some_iff.2 hmem))
    have hmove : Move env .inside scope middle := .steady hsteady
    refine ((resolveLink_upheld hregistry (hrooted.move hmove) hupheld hreference target).and
      (resolveLink_steady env middle _)).mono ?_ fun _ hfailed => hfailed.1
    rintro _ after ⟨hafter, hlast⟩
    exact ⟨hafter, hsteady.trans hlast⟩
  exact hloop.mono (fun _ _ hdone => hdone.1) fun _ hfailed => hfailed

end Scope

end RecordStore
