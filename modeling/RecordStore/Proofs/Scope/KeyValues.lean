import RecordStore.Proofs.Scope.Mirroring
import RecordStore.Proofs.Scope.Underway

/-!
# Keys that records hold

A record holds its key in the column where the key of its model belongs.  A model may have further primary
keys; in these a record holds its key too, or nothing (`Record.KeyHeld`): a record that is loaded takes them
from its row, and one that is new is given its key only in the first of them.

All that happens in a scope keeps it so (`Scope.KeysHeld`).  A flush gives keys to records that have none,
and neither the links nor the defaults that it fills in fall on a primary key.
-/

namespace RecordStore

namespace Record

variable {find? : String → Option Model} {model : Model} {record changed : Record} {name : String}

/-- The key of the model holds the key of the record, and every primary key holds it or nothing. -/
structure KeyHeld (record : Record) : Prop where
  own : ∀ id key, record.id = some id → record.model.primaryKey? = some key →
    record.values.find? key.name = some (.integer id)
  columns : ∀ column ∈ record.model.columns, column.primaryKey = true →
    record.values.find? column.name = some .null ∨
      ∃ id, record.id = some id ∧ record.values.find? column.name = some (.integer id)

theorem keyHeld_new (model : Model) (collections : List String) : (new model collections).KeyHeld where
  own _ _ hid := by cases hid
  columns _ hcolumn _ := Or.inl (find?_new collections hcolumn)

/-- A record that is loaded from a row takes all primary keys from there. -/
theorem keyHeld_loaded (hcompiled : model.Compiled find?) {columns loaded : List (String × Value)}
    (hfits : model.Fits columns) (hloaded : List.Forall₂ (LoadedAs model) columns loaded)
    (collections : List String) {id : Int64}
    (hholds : ∀ column ∈ model.columns, column.primaryKey = true →
      storedColumn columns column.name = .integer id) :
    (Record.loaded model collections id loaded).KeyHeld := by
  have hmodel : (loaded.foldl restore (new model collections)).model = model :=
    (foldl_restore_frame loaded _).1
  have hown : ∀ key, model.primaryKey? = some key →
      (Record.loaded model collections id loaded).values.find? key.name = some (.integer id) :=
    fun key hkey => find?_assignId_key id (hmodel.symm ▸ hkey)
  constructor
  case own =>
    intro key column hkey hcolumn
    rw [loaded_id] at hkey
    rw [loaded_model] at hcolumn
    cases hkey
    exact hown column hcolumn
  case columns =>
    intro column hcolumn hprimary
    rw [loaded_model] at hcolumn
    refine Or.inr ⟨id, loaded_id .., ?_⟩
    -- The key of the model is given with the record; the others are loaded as they are stored.
    by_cases hother : ∀ key, model.primaryKey? = some key → column.name ≠ key.name
    · obtain ⟨value, hvalue, hload⟩ :=
        find?_loaded_of_ne hcompiled hfits hloaded collections id hcolumn hother
      rw [hholds column hcolumn hprimary] at hload
      cases hload
      exact hvalue
    · push Not at hother
      obtain ⟨key, hkey, hname⟩ := hother
      rw [hname]
      exact hown key hkey

namespace KeyHeld

/-- Only the values of the primary keys matter. -/
theorem of_values (h : record.KeyHeld) (hmodel : changed.model = record.model)
    (hid : changed.id = record.id)
    (hvalues : ∀ column ∈ record.model.columns, column.primaryKey = true →
      changed.values.find? column.name = record.values.find? column.name) : changed.KeyHeld := by
  constructor
  case own =>
    intro id key hkey hcolumn
    rw [hmodel] at hcolumn
    rw [hid] at hkey
    rw [hvalues key (List.mem_of_find?_eq_some hcolumn) (by simpa using List.find?_some hcolumn)]
    exact h.own id key hkey hcolumn
  case columns =>
    intro column hcolumn hprimary
    rw [hmodel] at hcolumn
    rw [hvalues column hcolumn hprimary, hid]
    exact h.columns column hcolumn hprimary

/-- A value is stored in a column that is no primary key, marked or not. -/
theorem putBack (h : record.KeyHeld)
    (hname : ∀ column ∈ record.model.columns, column.primaryKey = true → name ≠ column.name)
    (value : Value) (marked : Bool) : (record.putBack name value marked).KeyHeld := by
  obtain ⟨hmodel, hid⟩ := putBack_keeps record name value marked
  refine h.of_values hmodel hid ?_
  intro column hcolumn hprimary
  exact (find?_putBack ..).trans (if_neg (hname column hcolumn hprimary).symm)

/-- A record that has no key is given one. -/
theorem assignId (h : record.KeyHeld) (hnew : record.id = none) (id : Int64) :
    (record.assignId id).KeyHeld := by
  constructor
  case own =>
    intro key column hkey hcolumn
    rw [assignId_id] at hkey
    rw [assignId_model] at hcolumn
    cases hkey
    exact find?_assignId_key id hcolumn
  case columns =>
    intro column hcolumn hprimary
    rw [assignId_model] at hcolumn
    by_cases hother : ∀ key, record.model.primaryKey? = some key → column.name ≠ key.name
    · -- A primary key beside the key of the model is left empty.
      rw [find?_assignId hother]
      rcases h.columns column hcolumn hprimary with hnull | ⟨key, hkey, -⟩
      · exact Or.inl hnull
      · cases hnew.symm.trans hkey
    · push Not at hother
      obtain ⟨key, hkey, hname⟩ := hother
      rw [hname]
      exact Or.inr ⟨id, assignId_id .., find?_assignId_key id hkey⟩

end KeyHeld

end Record

/-! ## Scopes -/

namespace Scope

variable {env : Environment} {terms : Terms} {deleted : List (String × UInt64)}
  {start scope before after : Scope} {handle target : Handle} {entry : Entry} {model : Model}

/-- All records of the scope hold their keys. -/
def KeysHeld (scope : Scope) : Prop :=
  ∀ (handle : Handle) (entry : Entry), scope.entries[handle]? = some entry → entry.record.KeyHeld

theorem keysHeld_empty (supply : Supply) : KeysHeld { supply } := by
  intro _ _ hentry
  cases hentry

namespace KeysHeld

theorem of_same (h : before.KeysHeld) (hentries : after.entries = before.entries) : after.KeysHeld :=
  fun handle entry hentry => h handle entry (hentries ▸ hentry)

theorem withLinks (h : scope.KeysHeld) (links : SortedMap (Handle × String) Handle) :
    ({ scope with links } : Scope).KeysHeld :=
  h.of_same rfl

/-- One record changes. -/
theorem modifyRecord (h : scope.KeysHeld) {f : Record → Record}
    (hf : ∀ entry, scope.entries[handle]? = some entry → (f entry.record).KeyHeld) :
    (scope.modifyRecord handle f).KeysHeld := by
  intro other new hnew
  rw [getElem?_modifyRecord] at hnew
  obtain ⟨entry, hentry, rfl⟩ := Option.map_eq_some_iff.1 hnew
  by_cases hsame : handle = other
  · subst hsame
    simpa using hf entry hentry
  · simpa [hsame] using h other entry hentry

/-- One more record. -/
theorem appendAs (h : scope.KeysHeld) (hentry : entry.record.KeyHeld)
    (identity : SortedMap (String × Int64) Handle) : (scope.appendAs entry identity).KeysHeld := by
  intro handle other hother
  rcases getElem?_appendAs.1 hother with hold | ⟨-, rfl⟩
  · exact h handle other hold
  · exact hentry

/-- Flushed records keep their values. -/
theorem settle (h : scope.KeysHeld) (images : List RowImage) : (Scope.settle images scope).KeysHeld := by
  intro handle new hnew
  obtain ⟨old, hold, rfl⟩ := of_getElem?_settle hnew
  have hheld := h handle old hold
  refine hheld.of_values (settleEntry_model old) (settleEntry_id old) fun _ _ _ => ?_
  unfold settleEntry
  by_cases hlive : old.state.isLive = true <;> simp [hlive, Record.clearChanges]

/-- Defaults are for columns that are no primary keys. -/
theorem imaged (h : scope.KeysHeld)
    (hcompiled : ∀ (handle : Handle) (entry : Entry), scope.entries[handle]? = some entry →
      ∃ find?, entry.record.model.Compiled find?) (himaged : scope.Imaged after) : after.KeysHeld := by
  intro handle new hnew
  have hlt : handle < scope.entries.length := himaged.length ▸ (List.getElem?_eq_some_iff.1 hnew).1
  have hentry := List.getElem?_eq_getElem hlt
  obtain ⟨record, hrecord, hmodel, hid, -, hvalues⟩ := himaged.entries handle _ hentry
  obtain rfl := Option.some.inj (hnew.symm.trans hrecord)
  obtain ⟨_, hcompiled⟩ := hcompiled handle _ hentry
  refine (h handle _ hentry).of_values hmodel hid ?_
  intro column hcolumn hprimary
  refine hvalues column.name ?_
  rintro ⟨-, other, hother, hname, hdefault⟩
  obtain rfl := List.inj_on_of_nodup_map hcompiled.columns_nodup hother hcolumn hname
  exact hdefault (hcompiled.primaryKey_default hother hprimary)

end KeysHeld

/-! ## What is done in scopes -/

theorem create_keysHeld (h : scope.KeysHeld) (name : String) :
    (create env name).Ends scope (fun _ after => after.KeysHeld) (fun after => after.KeysHeld) := by
  refine (create_cases env scope name).mono ?_ ?_
  · rintro _ _ ⟨model, -, rfl⟩
    exact h.appendAs (Record.keyHeld_new model _) scope.identity
  · rintro _ rfl
    exact h

theorem delete_keysHeld (h : scope.KeysHeld) (handle : Handle) :
    (delete handle).Ends scope (fun _ after => after.KeysHeld) (fun after => after.KeysHeld) := by
  unfold delete
  refine ScopeM.ends_entry_bind ?_ h
  intro entry _
  refine ScopeM.ends_modify ?_
  intro other new hnew
  obtain ⟨old, hold, rfl⟩ :=
    Option.map_eq_some_iff.1 ((getElem?_modifyEntry scope handle _ other).symm.trans hnew)
  by_cases hsame : handle = other <;> simpa [hsame] using h other old hold

theorem updateRecord_keysHeld (h : scope.KeysHeld) (handle : Handle) {f : Record → Except Error Record}
    (hf : ∀ entry, scope.entries[handle]? = some entry → ∀ changed, f entry.record = .ok changed →
      changed.KeyHeld) :
    (updateRecord handle f).Ends scope (fun _ after => after.KeysHeld) (fun after => after.KeysHeld) := by
  refine (updateRecord_cases scope handle f).mono ?_ ?_
  · rintro _ _ ⟨entry, changed, hentry, hchanged, rfl⟩
    exact h.modifyRecord fun _ _ => hf entry hentry changed hchanged
  · rintro _ rfl
    exact h

theorem add_keysHeld (h : scope.KeysHeld) {record : Record} (hheld : record.KeyHeld) :
    (add record).Ends scope (fun _ after => after.KeysHeld) (fun after => after.KeysHeld) := by
  refine (add_cases scope record).mono ?_ fun _ => False.elim
  rintro _ _ hadds
  cases hadds with
  | enter => exact h.appendAs hheld _
  | adopt => exact h.appendAs hheld _
  | replace => exact h.modifyRecord fun _ _ => hheld

/-- The column of a relationship is filled or marked, which is no primary key. -/
theorem KeysHeld.refer (hregistry : env.registry.Consistent) (hrooted : scope.Rooted env)
    (h : scope.KeysHeld) {relationship : Relationship} (hentry : scope.entries[handle]? = some entry)
    (hmem : relationship ∈ entry.record.model.relationships) (target : Handle) (id : Option Int64) :
    (scope.refer handle relationship.column target id).KeysHeld := by
  obtain ⟨_, hcompiled⟩ := hrooted.compiled hregistry hentry
  unfold Scope.refer
  cases id with
  | some id =>
      refine KeysHeld.modifyRecord (h.withLinks _) ?_
      intro found hfound
      obtain rfl := Option.some.inj (hentry.symm.trans hfound)
      exact (h handle entry hentry).putBack (fun _ hcolumn hprimary =>
        hcompiled.reference_ne_primaryKey hmem hcolumn hprimary) (.integer id) true
  | none =>
      refine KeysHeld.modifyRecord (h.withLinks _) ?_
      intro found hfound
      exact (h handle found hfound).of_values rfl rfl fun _ _ _ => rfl

theorem setReference_keysHeld (hregistry : env.registry.Consistent) (hrooted : scope.Rooted env)
    (h : scope.KeysHeld) (handle : Handle) (field : String) (target : Handle) :
    (setReference handle field target).Ends scope (fun _ after => after.KeysHeld)
      (fun after => after.KeysHeld) := by
  refine (setReference_cases scope handle field target).mono ?_ ?_
  · rintro _ _ ⟨entry, relationship, referred, hentry, hrelationship, -, -, rfl⟩
    exact h.refer hregistry hrooted hentry (relationshipOf_eq_ok hrelationship) target _
  · rintro _ rfl
    exact h

/-! ## Flushing -/

theorem assignId_keysHeld (env : Environment) (handle : Handle) :
    (assignId env handle).Keeps KeysHeld := by
  intro scope h
  have hkept : ∀ after, scope.SameRecords after → after.KeysHeld := fun _ hsame =>
    h.of_same hsame.entries
  refine (assignId_outcome scope env handle).mono ?_ fun after hrefused => hkept after hrefused.same
  rintro _ _ (_ | ⟨entry, asked, sequence, current, id, hentry, hnew, hasked, -, -, -⟩)
  · exact h
  · have hadvanced : (asked.advance sequence (current + 1)).KeysHeld :=
      (hkept asked hasked.same).of_same rfl
    have hgiven : ((asked.advance sequence (current + 1)).modifyRecord handle fun record =>
        record.assignId id).KeysHeld := by
      refine hadvanced.modifyRecord ?_
      intro found hfound
      obtain rfl := Option.some.inj (hentry.symm.trans (hasked.same.entries ▸ hfound))
      exact (h handle entry hentry).assignId hnew.2 id
    exact hgiven.of_same rfl

theorem assignIds_keysHeld (env : Environment) : (assignIds env).Keeps KeysHeld := by
  intro scope h
  exact ScopeM.ends_get_bind (ScopeM.ends_forM h fun handle _ => assignId_keysHeld env handle)

section

variable (hregistry : env.registry.Consistent) (hrooted : start.Rooted env) (hstart : start.Orderly)

include hregistry hrooted

/-- The models of records are compiled, also while a flush is underway. -/
theorem Underway.compiled (h : start.Underway scope) (hentry : scope.entries[handle]? = some entry) :
    ∃ find?, entry.record.model.Compiled find? := by
  obtain ⟨old, hold, -, hmodel, -⟩ := h.entry_back hentry
  obtain ⟨_, hcompiled⟩ := hrooted.compiled hregistry hold
  rw [hmodel]
  exact ⟨_, hcompiled⟩

include hstart

/-- Links are filled in columns of relationships. -/
theorem resolveLinks_keysHeld (h : start.Underway scope) (hlinks : scope.links = start.links)
    (hheld : scope.KeysHeld) :
    resolveLinks.Ends scope (fun _ after => start.Underway after ∧ after.KeysHeld)
      (fun after => start.Underway after ∧ after.KeysHeld) := by
  unfold resolveLinks
  have hforget : start.Underway { scope with links := ∅ } ∧ KeysHeld { scope with links := ∅ } :=
    ⟨h.of_same rfl (fun _ _ hlink => by cases hlink) rfl, hheld.withLinks ∅⟩
  refine ScopeM.ends_get_bind (ScopeM.ends_set_bind (ScopeM.ends_forM hforget ?_))
  rintro ⟨⟨handle, name⟩, target⟩ hmem filling ⟨hfilling, hkept⟩
  have hlink : start.links.find? (handle, name) = some target := by
    rw [← hlinks]
    exact SortedMap.find?_eq_some_iff.2 hmem
  refine (resolveLink_cases filling handle name target).mono ?_ ?_
  · rintro _ _ ⟨id, hid, rfl⟩
    refine ⟨hfilling.fillLink hlink hid, hkept.modifyRecord ?_⟩
    intro entry hentry
    -- The record is of the model that it had when the link was made.
    obtain ⟨_, hcompiled⟩ := hfilling.compiled hregistry hrooted hentry
    obtain ⟨old, hold, -, hmodel, -⟩ := hfilling.entry_back hentry
    obtain ⟨found, -, hfound, -, relationship, hmem, rfl, -⟩ := hstart.links handle name target hlink
    obtain rfl := Option.some.inj (hold.symm.trans hfound)
    rw [← hmodel] at hmem
    exact (hkept handle entry hentry).putBack (fun _ hcolumn hprimary =>
      hcompiled.reference_ne_primaryKey hmem hcolumn hprimary) (.integer id) true
  · rintro _ ⟨rfl, -⟩
    exact ⟨hfilling, hkept⟩

theorem flush_keysHeld (hheld : start.KeysHeld) :
    (flush env).Ends start (fun _ after => after.KeysHeld) (fun after => after.KeysHeld) := by
  unfold flush
  have hnumbering := (assignIds_underway hregistry hrooted hstart start ⟨.refl start, rfl⟩).and
    (assignIds_keysHeld env start hheld)
  refine ScopeM.ends_bind (hnumbering.mono (fun _ _ hdone => hdone) fun _ hfailed => hfailed.2) ?_
  rintro _ numbered ⟨⟨hnumbered, hlinks⟩, hheld⟩
  refine ScopeM.ends_bind ((resolveLinks_keysHeld hregistry hrooted hstart hnumbered hlinks hheld).mono
    (fun _ _ hdone => hdone) fun _ hfailed => hfailed.2) ?_
  rintro _ filled ⟨hfilled, hheld⟩
  have himages : ∀ after, filled.Imaged after → after.KeysHeld := fun _ =>
    hheld.imaged fun _ _ hentry => hfilled.compiled hregistry hrooted hentry
  refine ScopeM.ends_bind ((rowImages_imaged env filled (.refl filled)).mono
    (fun _ after himaged => himages after himaged) himages) ?_
  intro images made hmade
  exact ScopeM.ends_get_bind (ScopeM.ends_lift_bind
    (fun _ _ => ScopeM.ends_modify (hmade.settle images)) hmade)

end

/-! ## Looking records up -/

section

variable (hregistry : env.registry.Consistent)
  (hcount : ∀ model ∈ env.registry.models, model.columns.length < 4294967296)

include hregistry hcount

/-- A row holds its number in all primary keys, from where a loaded record takes it. -/
theorem materialize_keysHeld (hrows : scope.SoundRows env deleted) (hholds : scope.HoldsKeys env)
    (h : scope.KeysHeld) (hmodel : model ∈ env.registry.models) {id : Int64} {row : StoredRow}
    (hrow : scope.visibleRow env model.tableName id.toUInt64 = .ok (some row)) :
    (materialize env model id row).Ends scope (fun _ after => after.KeysHeld)
      (fun after => after.KeysHeld) := by
  obtain ⟨columns, hwrote⟩ := hrows.written model hmodel _ row hrow
  obtain ⟨_, -, hcompiled⟩ := hregistry.mem_compiled hmodel
  refine materialize_of_fits hcompiled (hwrote.holds (hcount model hmodel)) hwrote.fits id ?_ fun _ => h
  intro _ loaded hloaded
  refine h.appendAs (Record.keyHeld_loaded hcompiled hwrote.fits hloaded _ ?_) _
  intro column hcolumn hprimary
  have hstored := hholds model hmodel _ columns ⟨row, hrow, hwrote⟩ column hcolumn hprimary
  rwa [Int64.toInt64_toUInt64] at hstored

/-- Looking records up keeps the keys of an orderly scope held. -/
theorem lookable_keysHeld (hstart : start.Intact env terms deleted) :
    Lookable env fun scope => (start.Reaches env terms scope ∧ scope.Orderly) ∧ scope.KeysHeld := by
  refine lookable_of_loading hregistry hstart.rooted (fun _ h => h.of_same rfl) ?_ ?_
  · intro scope hreaches h model hmodel id row hrow
    have hscope := hstart.reaches hregistry hcount hreaches
    exact materialize_keysHeld hregistry hcount hscope.rows hscope.holdsKeys h hmodel hrow
  · intro scope hreaches horderly h
    exact flush_keysHeld hregistry (hstart.rooted.reaches hreaches) horderly h

end

end Scope

end RecordStore
