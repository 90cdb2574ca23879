import RecordStore.Proofs.Scope.Imaging
import RecordStore.Proofs.Scope.Orderly

/-!
# Flushes that are underway

Until a flush stages rows, it only gives keys and defaults to records and fills links (`Scope.Underway`).
Neither falls on an attribute that is marked, unless a link is filled there (`Scope.Treated`).  So this is
also all that a flush has done when it fails, and a flush that succeeds stages its images over such a scope
(`Scope.flush_underway`).
-/

namespace RecordStore

namespace Scope

variable {env : Environment} {terms : Terms} {start scope before after : Scope} {handle target : Handle}
  {record changed : Record} {id : Int64} {name : String}

theorem linkedId?_eq_some : scope.linkedId? target = some id ↔
    ∃ entry, scope.entries[target]? = some entry ∧ entry.state.isLive = true ∧
      entry.record.id = some id := by
  unfold linkedId?
  cases scope.entries[target]? with
  | none => simp
  | some entry => by_cases hlive : entry.state.isLive = true <;> simp [hlive]

/-- Links that lead to a key still do. -/
def StaysLinked (before after : Scope) : Prop :=
  ∀ target id, before.linkedId? target = some id → after.linkedId? target = some id

theorem staysLinked_modifyRecord {f : Record → Record}
    (hf : ∀ entry, scope.entries[handle]? = some entry → ∀ id, entry.record.id = some id →
      (f entry.record).id = some id) : scope.StaysLinked (scope.modifyRecord handle f) := by
  intro target id hlink
  obtain ⟨entry, hentry, hlive, hid⟩ := linkedId?_eq_some.1 hlink
  rw [linkedId?_eq_some, getElem?_modifyRecord, hentry]
  by_cases hsame : handle = target
  · exact ⟨{ entry with record := f entry.record }, by simp [hsame], hlive,
      hf entry (hsame ▸ hentry) id hid⟩
  · exact ⟨entry, by simp [hsame], hlive, hid⟩

theorem Imaged.staysLinked (h : before.Imaged after) : before.StaysLinked after := by
  intro target id hlink
  obtain ⟨entry, hentry, hlive, hid⟩ := linkedId?_eq_some.1 hlink
  obtain ⟨record, hrecord, -, hsame, -⟩ := h.entries target entry hentry
  exact linkedId?_eq_some.2 ⟨_, hrecord, hlive, hsame.trans hid⟩

/-- What a flush does to an attribute of a record before it stages rows. -/
inductive Treated (start scope : Scope) (handle : Handle) (before after : Record) (name : String) :
    Prop where
  | kept : after.values.find? name = before.values.find? name →
      after.isChanged name = before.isChanged name → Treated start scope handle before after name
  /-- A link is filled. -/
  | filled (target : Handle) (id : Int64) : start.links.find? (handle, name) = some target →
      scope.linkedId? target = some id → after.values.find? name = some (.integer id) →
        after.isChanged name = true → Treated start scope handle before after name
  /-- The key is given, or a default. -/
  | given (column : Column) : (before.model.primaryKey? = some column ∨
        column ∈ before.model.columns ∧ column.default ≠ none) → column.name = name →
      before.isChanged name = false → after.isChanged name = false →
        Treated start scope handle before after name

namespace Treated

/-- An attribute that is left alone afterwards was treated in the same way. -/
theorem transfer {old : Record} (h : start.Treated before handle old record name)
    (hvalue : changed.values.find? name = record.values.find? name)
    (hchanged : changed.isChanged name = record.isChanged name) (hlinks : before.StaysLinked after) :
    start.Treated after handle old changed name := by
  cases h with
  | kept hsame hmark => exact .kept (hvalue.trans hsame) (hchanged.trans hmark)
  | filled target id hlink hid hfilled hmark =>
      exact .filled target id hlink (hlinks target id hid) (hvalue.trans hfilled) (hchanged.trans hmark)
  | given column hcolumn hname hunmarked hmark =>
      exact .given column hcolumn hname hunmarked (hchanged.trans hmark)

theorem unmarked {old : Record} (h : start.Treated scope handle old record name)
    (hunmarked : record.isChanged name = false) : old.isChanged name = false := by
  cases h with
  | kept _ hmark => exact hmark.symm.trans hunmarked
  | filled _ _ _ _ _ hmark => cases hunmarked.symm.trans hmark
  | given _ _ _ hold => exact hold

/-- The key is not marked by a flush, since no link stands for it. -/
theorem unmarked_key {find? : String → Option Model} {entry : Entry} {key : Column}
    (h : start.Treated scope handle entry.record record key.name) (hstart : start.Orderly)
    (hentry : start.entries[handle]? = some entry) (hcompiled : entry.record.model.Compiled find?)
    (hkey : entry.record.model.primaryKey? = some key) : record.isChanged key.name = false := by
  cases h with
  | kept _ hmark => exact hmark.trans (hstart.entries handle entry hentry key hkey)
  | filled target _ hlink =>
      obtain ⟨found, -, hfound, -, relationship, hmem, hcolumn, -⟩ := hstart.links handle _ target hlink
      obtain rfl := Option.some.inj (hentry.symm.trans hfound)
      exact absurd hcolumn (hcompiled.reference_ne_key hmem hkey)
  | given _ _ _ _ hmark => exact hmark

end Treated

/-- Some records may have got keys and defaults, and some links may be filled or forgotten; nothing else has
happened. -/
structure Underway (start scope : Scope) : Prop where
  staged : scope.staged = start.staged
  links : ∀ key target, scope.links.find? key = some target → start.links.find? key = some target
  length : scope.entries.length = start.entries.length
  entries : ∀ (handle : Handle) (entry : Entry), start.entries[handle]? = some entry →
    ∃ record, scope.entries[handle]? = some { entry with record } ∧
      record.model = entry.record.model ∧ (∀ id, entry.record.id = some id → record.id = some id) ∧
      ∀ name, start.Treated scope handle entry.record record name

namespace Underway

theorem refl (scope : Scope) : scope.Underway scope where
  staged := rfl
  links _ _ h := h
  length := rfl
  entries _ entry hentry := ⟨entry.record, hentry, rfl, fun _ hid => hid, fun _ => .kept rfl rfl⟩

/-- Nothing changes as long as the records and rows stay, and no link is made. -/
theorem of_same (h : start.Underway scope) (hstaged : after.staged = scope.staged)
    (hlinks : ∀ key target, after.links.find? key = some target → scope.links.find? key = some target)
    (hentries : after.entries = scope.entries) : start.Underway after where
  staged := hstaged.trans h.staged
  links key target hlink := h.links key target (hlinks key target hlink)
  length := by rw [hentries, h.length]
  entries handle entry hentry := by
    obtain ⟨record, hrecord, hmodel, hid, htreated⟩ := h.entries handle entry hentry
    have hlinked : scope.StaysLinked after := by
      intro target id hlink
      simpa [linkedId?, hentries] using hlink
    exact ⟨record, by rw [hentries, hrecord], hmodel, hid,
      fun name => (htreated name).transfer rfl rfl hlinked⟩

/-- A record of the scope was there at the start, where it stands now. -/
theorem entry_back (h : start.Underway scope) {new : Entry} (hnew : scope.entries[handle]? = some new) :
    ∃ old, start.entries[handle]? = some old ∧ new.state = old.state ∧
      new.record.model = old.record.model ∧
      (∀ id, old.record.id = some id → new.record.id = some id) ∧
      ∀ name, start.Treated scope handle old.record new.record name := by
  have hlt : handle < start.entries.length := h.length ▸ (List.getElem?_eq_some_iff.1 hnew).1
  obtain ⟨record, hrecord, hkept⟩ := h.entries handle _ (List.getElem?_eq_getElem hlt)
  obtain rfl := Option.some.inj (hnew.symm.trans hrecord)
  exact ⟨_, List.getElem?_eq_getElem hlt, rfl, hkept⟩

/-- One record changes, in attributes that are treated anew. -/
theorem modifyRecord (h : start.Underway scope) {f : Record → Record}
    (hf : ∀ (old new : Entry), start.entries[handle]? = some old → scope.entries[handle]? = some new →
      (f new.record).model = new.record.model ∧
      (∀ id, new.record.id = some id → (f new.record).id = some id) ∧
      ∀ name, ((f new.record).values.find? name = new.record.values.find? name ∧
          (f new.record).isChanged name = new.record.isChanged name) ∨
        start.Treated (scope.modifyRecord handle f) handle old.record (f new.record) name) :
    start.Underway (scope.modifyRecord handle f) := by
  have hlinked : scope.StaysLinked (scope.modifyRecord handle f) := by
    refine staysLinked_modifyRecord ?_
    intro new hnew
    obtain ⟨old, hold, -⟩ := h.entry_back hnew
    exact (hf old new hold hnew).2.1
  refine ⟨h.staged, h.links, (List.length_modify ..).trans h.length, ?_⟩
  intro other old hold
  obtain ⟨record, hrecord, hmodel, hid, htreated⟩ := h.entries other old hold
  rw [getElem?_modifyRecord, hrecord, Option.map_some]
  by_cases hsame : handle = other
  · subst hsame
    obtain ⟨hmodel', hid', hnames⟩ := hf old _ hold hrecord
    refine ⟨f record, by simp, hmodel'.trans hmodel, fun _ hkey => hid' _ (hid _ hkey), ?_⟩
    intro name
    rcases hnames name with ⟨hvalue, hchanged⟩ | hanew
    · exact (htreated name).transfer hvalue hchanged hlinked
    · exact hanew
  · exact ⟨record, by simp [hsame], hmodel, hid, fun name => (htreated name).transfer rfl rfl hlinked⟩

/-- Images are made, and some records get defaults. -/
theorem imaged (h : start.Underway scope) (himaged : scope.Imaged after) : start.Underway after := by
  have hlinked := himaged.staysLinked
  refine ⟨himaged.staged.trans h.staged, himaged.links ▸ h.links, himaged.length.trans h.length, ?_⟩
  intro handle old hold
  obtain ⟨record, hrecord, hmodel, hid, htreated⟩ := h.entries handle old hold
  obtain ⟨final, hfinal, hmodel', hid', hchanged, hvalues⟩ := himaged.entries handle _ hrecord
  refine ⟨final, hfinal, hmodel'.trans hmodel, fun id hkey => hid'.trans (hid id hkey), ?_⟩
  intro name
  have hmark : final.isChanged name = record.isChanged name := by
    simp [Record.isChanged, hchanged]
  -- Only what is not marked takes a default, so nothing that was filled is lost.
  by_cases hdefault : record.TakesDefault name
  · obtain ⟨hunmarked, column, hcolumn, hname, hnone⟩ := hdefault
    exact .given column (Or.inr ⟨hmodel ▸ hcolumn, hnone⟩) hname ((htreated name).unmarked hunmarked)
      (hmark.trans hunmarked)
  · exact (htreated name).transfer (hvalues name hdefault) hmark hlinked

end Underway

/-! ## Keys -/

section

variable (hregistry : env.registry.Consistent) (hrooted : start.Rooted env) (hstart : start.Orderly)

include hregistry hrooted hstart

/-- A record that is given a key had none, and no mark where the key belongs. -/
theorem Underway.giveKey (h : start.Underway scope) {entry : Entry}
    (hentry : scope.entries[handle]? = some entry) (hnew : entry.record.id = none) (model : String)
    (id : Int64) : start.Underway (scope.giveKey handle model id) := by
  have hgiven : start.Underway (scope.modifyRecord handle fun record => record.assignId id) := by
    refine h.modifyRecord ?_
    intro old new hold hfound
    obtain rfl := Option.some.inj (hentry.symm.trans hfound)
    obtain ⟨_, hold', -, hmodel, -, htreated⟩ := h.entry_back hentry
    obtain rfl := Option.some.inj (hold.symm.trans hold')
    obtain ⟨_, hcompiled⟩ := hrooted.compiled hregistry hold
    have hmark : ∀ name, (entry.record.assignId id).isChanged name = entry.record.isChanged name := by
      intro name
      simp [Record.isChanged, Record.assignId_changed]
    refine ⟨Record.assignId_model .., fun key hkey => by simp [hnew] at hkey, ?_⟩
    intro name
    -- Under the name of the key stands the key; nothing else changes.
    by_cases hname : ∀ key, entry.record.model.primaryKey? = some key → name ≠ key.name
    · exact Or.inl ⟨Record.find?_assignId hname, hmark name⟩
    · push Not at hname
      obtain ⟨key, hkey, rfl⟩ := hname
      have hunmarked := (htreated key.name).unmarked_key hstart hold hcompiled (hmodel ▸ hkey)
      exact Or.inr (.given key (Or.inl (hmodel ▸ hkey)) rfl ((htreated key.name).unmarked hunmarked)
        ((hmark key.name).trans hunmarked))
  exact hgiven.of_same rfl (fun _ _ hlink => hlink) rfl

theorem assignId_underway (handle : Handle) :
    (assignId env handle).Keeps fun scope => start.Underway scope ∧ scope.links = start.links := by
  rintro scope ⟨h, hlinks⟩
  have hkept : ∀ after, scope.SameRecords after →
      start.Underway after ∧ after.links = start.links := by
    intro after hsame
    exact ⟨h.of_same hsame.staged (fun _ _ hlink => hsame.links ▸ hlink) hsame.entries,
      hsame.links.trans hlinks⟩
  refine (assignId_outcome scope env handle).mono ?_ fun after hrefused => hkept after hrefused.same
  rintro _ _ (_ | ⟨entry, asked, sequence, current, id, hentry, hnew, hasked, -, -, -⟩)
  · exact ⟨h, hlinks⟩
  · obtain ⟨hunderway, hlinks'⟩ := hkept asked hasked.same
    have hadvanced : start.Underway (asked.advance sequence (current + 1)) :=
      hunderway.of_same rfl (fun _ _ hlink => hlink) rfl
    have hentry' : (asked.advance sequence (current + 1)).entries[handle]? = some entry :=
      hasked.same.entries ▸ hentry
    exact ⟨hadvanced.giveKey hregistry hrooted hstart hentry' hnew.2 _ id, hlinks'⟩

theorem assignIds_underway :
    (assignIds env).Keeps fun scope => start.Underway scope ∧ scope.links = start.links := by
  rintro scope h
  refine ScopeM.ends_get_bind (ScopeM.ends_forM h ?_)
  intro handle _ scope h
  exact assignId_underway hregistry hrooted hstart handle scope h

end

/-! ## References -/

namespace Underway

theorem fillLink (h : start.Underway scope) (hlink : start.links.find? (handle, name) = some target)
    (hid : scope.linkedId? target = some id) :
    start.Underway (scope.modifyRecord handle fun record =>
      (record.putValue name (.integer id)).markChanged name) := by
  have hlinked : scope.StaysLinked (scope.modifyRecord handle fun record =>
      (record.putValue name (.integer id)).markChanged name) :=
    staysLinked_modifyRecord fun _ _ _ hkey => hkey
  refine h.modifyRecord ?_
  intro old new _ _
  refine ⟨rfl, fun _ hkey => hkey, ?_⟩
  intro attr
  by_cases hattr : attr = name
  · -- The target keeps its key, also when it is the record itself.
    subst hattr
    exact Or.inr (.filled target id hlink (hlinked target id hid)
      ((Record.find?_putValue ..).trans (if_pos rfl))
      ((Record.isChanged_markChanged ..).trans (if_pos rfl)))
  · refine Or.inl ⟨(Record.find?_putValue ..).trans (if_neg hattr), ?_⟩
    exact (Record.isChanged_markChanged ..).trans (if_neg hattr)

end Underway

theorem resolveLinks_underway (h : start.Underway scope) (hlinks : scope.links = start.links) :
    resolveLinks.Ends scope (fun _ => start.Underway) start.Underway := by
  unfold resolveLinks
  have hforget : start.Underway { scope with links := ∅ } :=
    h.of_same rfl (fun _ _ hlink => by cases hlink) rfl
  refine ScopeM.ends_get_bind (ScopeM.ends_set_bind (ScopeM.ends_forM hforget ?_))
  rintro ⟨⟨handle, name⟩, target⟩ hmem filling hfilling
  have hlink : start.links.find? (handle, name) = some target := by
    rw [← hlinks]
    exact SortedMap.find?_eq_some_iff.2 hmem
  refine (resolveLink_cases filling handle name target).mono ?_ ?_
  · rintro _ _ ⟨id, hid, rfl⟩
    exact hfilling.fillLink hlink hid
  · rintro _ ⟨rfl, -⟩
    exact hfilling

/-! ## Flushing -/

section

variable (hregistry : env.registry.Consistent) (hrooted : start.Rooted env) (hstart : start.Orderly)

include hregistry hrooted hstart

/-- A flush that fails has not come further than this, and one that succeeds has come so far before it
stages rows. -/
theorem flush_underway :
    (flush env).Ends start
      (fun _ after => ∃ images made, start.Underway made ∧ after = settle images made)
      start.Underway := by
  unfold flush
  refine ScopeM.ends_bind ((assignIds_underway hregistry hrooted hstart start ⟨.refl start, rfl⟩).mono
    (fun _ _ hdone => hdone) fun _ hfailed => hfailed.1) ?_
  -- The links that are filled are those of the start, as none was taken out before.
  rintro _ numbered ⟨hnumbered, hlinks⟩
  refine ScopeM.ends_bind (resolveLinks_underway hnumbered hlinks) ?_
  intro _ filled hfilled
  refine ScopeM.ends_bind ((rowImages_imaged env filled (.refl filled)).mono
    (fun _ _ himaged => hfilled.imaged himaged) fun _ himaged => hfilled.imaged himaged) ?_
  intro images made hmade
  exact ScopeM.ends_get_bind (ScopeM.ends_lift_bind
    (fun _ _ => ScopeM.ends_modify ⟨images, made, hmade, rfl⟩) hmade)

end

/-! ## Orderly scopes -/

theorem Underway.carries (h : start.Underway scope) : start.Carries scope := by
  intro handle entry hentry
  obtain ⟨record, hrecord, hmodel, hid, -⟩ := h.entries handle entry hentry
  exact ⟨_, hrecord, hmodel, hid⟩

theorem Underway.orderly (hregistry : env.registry.Consistent) (hrooted : start.Rooted env)
    (hstart : start.Orderly) (h : start.Underway scope) : scope.Orderly := by
  refine hstart.transfer h.carries ?_ fun _ _ _ hlink => Or.inl (h.links _ _ hlink)
  intro handle new hnew
  obtain ⟨old, hold, -, hmodel, -, htreated⟩ := h.entry_back hnew
  obtain ⟨_, hcompiled⟩ := hrooted.compiled hregistry hold
  refine Or.inr fun key hkey => ?_
  rw [hmodel] at hkey
  exact (htreated key.name).unmarked_key hstart hold hcompiled hkey

theorem Orderly.settle (h : scope.Orderly) (images : List RowImage) :
    (Scope.settle images scope).Orderly := by
  refine h.transfer (carries_settle images scope) ?_ fun _ _ _ hlink => Or.inl hlink
  intro handle new hnew
  obtain ⟨old, hold, rfl⟩ := of_getElem?_settle hnew
  refine Or.inr ?_
  unfold settleEntry
  by_cases hlive : old.state.isLive = true
  · simpa [hlive] using Record.keyUnmarked_of_unchanged rfl
  · simpa [hlive] using h.entries handle old hold

/-- Looking records up keeps a scope orderly. -/
theorem lookable_orderly (hregistry : env.registry.Consistent) (hrooted : start.Rooted env) :
    Lookable env fun scope => start.Reaches env terms scope ∧ scope.Orderly where
  consulted scope h :=
    ⟨reaches_steady h.1 (steady_consulted env scope true), h.2.of_same rfl rfl⟩
  flush scope h := by
    have hscope := hrooted.reaches h.1
    refine ((flush_reaches hrooted scope h.1).and (flush_underway hregistry hscope h.2)).mono ?_ ?_
    · rintro _ _ ⟨hreaches, images, made, hmade, rfl⟩
      exact ⟨hreaches, (hmade.orderly hregistry hscope h.2).settle images⟩
    · rintro after ⟨hreaches, hafter⟩
      exact ⟨hreaches, hafter.orderly hregistry hscope h.2⟩
  materialize {scope model id row} h hmodel hid hrow hnone := by
    have hreaches := (lookable_reaches hrooted).materialize h.1 hmodel hid hrow hnone
    have horderly : (materialize env model id row).Ends scope (fun _ after => after.Orderly)
        (fun after => after.Orderly) := by
      refine (materialize_cases env scope model id row).mono ?_ ?_
      · rintro _ _ ⟨loaded, rfl⟩
        exact h.2.appendAs (Record.keyUnmarked_of_unchanged (Record.loaded_changed ..)) _
      · rintro _ rfl
        exact h.2
    refine (hreaches.and horderly).mono ?_ fun _ hfailed => hfailed
    rintro _ _ ⟨⟨hreached, hstaged⟩, hafter⟩
    exact ⟨⟨hreached, hafter⟩, hstaged⟩

/-- Looking records up keeps a property of orderly scopes when flushes keep it and loading a visible row does,
and when asking the storage does not change it. -/
theorem lookable_of_loading (hregistry : env.registry.Consistent) (hrooted : start.Rooted env)
    {kept : Scope → Prop} (hconsulted : ∀ scope, kept scope → kept { scope with consulted := true })
    (hload : ∀ scope, start.Reaches env terms scope → kept scope → ∀ model ∈ env.registry.models, ∀ id row,
      scope.visibleRow env model.tableName id.toUInt64 = .ok (some row) →
        (materialize env model id row).Ends scope (fun _ => kept) kept)
    (hflush : ∀ scope, start.Reaches env terms scope → scope.Orderly → kept scope →
      (flush env).Ends scope (fun _ => kept) kept) :
    Lookable env fun scope => (start.Reaches env terms scope ∧ scope.Orderly) ∧ kept scope where
  consulted scope h := ⟨(lookable_orderly hregistry hrooted).consulted scope h.1, hconsulted scope h.2⟩
  flush scope h := ((lookable_orderly hregistry hrooted).flush scope h.1).and (hflush scope h.1.1 h.1.2 h.2)
  materialize {scope model id row} h hmodel hid hrow hnone := by
    have hloaded := hload scope h.1.1 h.2 model hmodel id row hrow
    refine (((lookable_orderly hregistry hrooted).materialize h.1 hmodel hid hrow hnone).and hloaded).mono
      ?_ fun _ hfailed => hfailed
    rintro _ _ ⟨⟨hlast, hstaged⟩, hdone⟩
    exact ⟨⟨hlast, hdone⟩, hstaged⟩

/-- The same, when one more record does not change the property, whatever it is. -/
theorem lookable_of_orderly (hregistry : env.registry.Consistent) (hrooted : start.Rooted env)
    {kept : Scope → Prop} (hconsulted : ∀ scope, kept scope → kept { scope with consulted := true })
    (happend : ∀ scope entry identity, kept scope → kept (scope.appendAs entry identity))
    (hflush : ∀ scope, start.Reaches env terms scope → scope.Orderly → kept scope →
      (flush env).Ends scope (fun _ => kept) kept) :
    Lookable env fun scope => (start.Reaches env terms scope ∧ scope.Orderly) ∧ kept scope := by
  refine lookable_of_loading hregistry hrooted hconsulted ?_ hflush
  intro scope _ hscope model _ id row _
  refine (materialize_cases env scope model id row).mono ?_ ?_
  · rintro _ _ ⟨loaded, rfl⟩
    exact happend scope _ _ hscope
  · rintro _ rfl
    exact hscope

end Scope

end RecordStore
