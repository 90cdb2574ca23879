import RecordStore.Proofs.Scope.Images

/-!
# Settling

A flush ends by staging all images at once.  No two images are for the same row, so every record
finds its own image staged, and a record without an image finds its row as it was
(`Scope.visibleRow_settle`).
-/

namespace RecordStore

namespace Scope

/-! ## Staged images -/

/-- The row that an image is for. -/
def imageKey (image : RowImage) : String × UInt64 :=
  (image.model.tableName, image.id)

/-- A key holds what the last image for it stages, or what it held when there is none. -/
theorem find?_foldl_stageImage (images : List RowImage)
    (staged : SortedMap (String × UInt64) (Option StoredRow)) (key : String × UInt64) :
    (∃ image ∈ images, imageKey image = key ∧
      (images.foldl stageImage staged).find? key = some (image.content.map (·.1))) ∨
    ((∀ image ∈ images, imageKey image ≠ key) ∧
      (images.foldl stageImage staged).find? key = staged.find? key) := by
  induction images generalizing staged with
  | nil =>
      refine Or.inr ⟨?_, rfl⟩
      intro image himage
      cases himage
  | cons image rest ih =>
      rw [List.foldl_cons]
      rcases ih (stageImage staged image) with ⟨later, hlater, hkey, hfind⟩ | ⟨hother, hfind⟩
      · exact Or.inl ⟨later, List.mem_cons_of_mem _ hlater, hkey, hfind⟩
      · rw [hfind, stageImage, SortedMap.find?_insert]
        by_cases hkey : key = (image.model.tableName, image.id)
        · rw [if_pos hkey]
          exact Or.inl ⟨image, List.mem_cons_self, hkey.symm, rfl⟩
        · rw [if_neg hkey]
          refine Or.inr ⟨?_, rfl⟩
          intro found hfound
          rcases List.mem_cons.1 hfound with rfl | hrest
          · exact fun heq => hkey heq.symm
          · exact hother found hrest

variable {env : Environment} {history : History} {scope : Scope} {handle : Handle} {entry : Entry}
  {images : List RowImage}

/-! ## Images and records -/

theorem ImageOf.some_cases {image : RowImage}
    (h : ImageOf env history scope handle entry (some image)) :
    image.model = entry.record.model ∧
      ∃ id, entry.record.id = some id ∧ image.id = id.toUInt64 := by
  cases h with
  | inserted id _ _ _ hid _ _ _ => exact ⟨rfl, id, hid, rfl⟩
  | updated id _ _ _ hid _ _ _ => exact ⟨rfl, id, hid, rfl⟩
  | deleted id _ hid => exact ⟨rfl, id, hid, rfl⟩

/-- The images of the records of a scope, one for each record that has any. -/
structure Parts (env : Environment) (history : History) (scope : Scope) (images : List RowImage)
    (part : Handle → Option RowImage) : Prop where
  made : ∀ handle entry, scope.entries[handle]? = some entry →
    ImageOf env history scope handle entry (part handle)
  mem_iff : ∀ image, image ∈ images ↔ ∃ (handle : Handle) (entry : Entry),
    scope.entries[handle]? = some entry ∧ part handle = some image

theorem ImagesOf.exists_parts (h : ImagesOf env history scope scope.handles images) :
    ∃ part, Parts env history scope images part := by
  rcases h with ⟨parts, rfl, hparts⟩
  have hlength : parts.length = scope.entries.length := by
    rw [← hparts.length_eq]
    exact List.length_range
  refine ⟨fun handle => (parts[handle]?).join, ?_, ?_⟩
  · intro handle entry hentry
    have hhandle : handle < scope.entries.length := (List.getElem?_eq_some_iff.1 hentry).1
    have hbound : handle < parts.length := by
      rw [hlength]
      exact hhandle
    have hrange : handle < scope.handles.length := by
      rw [hparts.length_eq]
      exact hbound
    -- The images stand in the order of the handles, so a handle is the place of its image.
    have himage := List.Forall₂.get hparts hrange hbound
    have hsame : scope.handles.get ⟨handle, hrange⟩ = handle := by
      simp [handles]
    rw [hsame] at himage
    have hpart : (parts[handle]?).join = parts.get ⟨handle, hbound⟩ := by
      rw [List.getElem?_eq_getElem hbound]
      rfl
    show ImageOf env history scope handle entry (parts[handle]?).join
    rw [hpart]
    exact himage entry hentry
  · intro image
    rw [List.mem_filterMap]
    constructor
    · rintro ⟨part, hpart, rfl⟩
      rcases List.mem_iff_getElem.1 hpart with ⟨handle, hhandle, hget⟩
      have hbound : handle < scope.entries.length := by
        rw [← hlength]
        exact hhandle
      refine ⟨handle, scope.entries[handle], List.getElem?_eq_getElem hbound, ?_⟩
      show (parts[handle]?).join = some image
      rw [List.getElem?_eq_getElem hhandle, hget]
      rfl
    · rintro ⟨handle, entry, hentry, hpart⟩
      have hhandle : handle < parts.length := by
        rw [hlength]
        exact (List.getElem?_eq_some_iff.1 hentry).1
      change (parts[handle]?).join = some image at hpart
      rw [List.getElem?_eq_getElem hhandle] at hpart
      exact ⟨parts[handle], List.getElem_mem hhandle, hpart⟩

theorem Sound.handle_unique (hregistry : env.registry.Consistent) (h : scope.Sound env history)
    {other : Handle} {old : Entry} (hentry : scope.entries[handle]? = some entry)
    (hold : scope.entries[other]? = some old) {id key : Int64} (hid : entry.record.id = some id)
    (hkey : old.record.id = some key)
    (htable : old.record.model.tableName = entry.record.model.tableName)
    (hnumber : key.toUInt64 = id.toUInt64) : other = handle := by
  have hsound := h.entries handle entry hentry
  have hother := h.entries other old hold
  have hmodel := hregistry.eq_of_tableName hother.registered hsound.registered htable
  -- Both records have the same key of the same model, and a key stands for one record.
  have hsame := toUInt64_injective hnumber
  subst hsame
  have hfound := (hother.identified key hkey).2
  have hname : old.record.modelName = entry.record.modelName := congrArg Model.name hmodel
  rw [hname, (hsound.identified key hid).2] at hfound
  exact (Option.some.inj hfound).symm

/-! ## Rows after settling -/

theorem getElem?_settle (scope : Scope) (images : List RowImage) (handle : Handle) :
    (settle images scope).entries[handle]? = (scope.entries[handle]?).map settleEntry :=
  List.getElem?_map

theorem visibleRow_of_staged {table : String} {id : UInt64} {row : Option StoredRow}
    (h : scope.staged.find? (table, id) = some row) : scope.visibleRow env table id = .ok row := by
  unfold visibleRow
  rw [h]

theorem visibleRow_congr {other : Scope} {table : String} {id : UInt64}
    (h : other.staged.find? (table, id) = scope.staged.find? (table, id)) :
    other.visibleRow env table id = scope.visibleRow env table id := by
  unfold visibleRow
  rw [h]

/-- After settling every record finds what its image stages, or its row as it was. -/
theorem visibleRow_settle (hregistry : env.registry.Consistent) (h : scope.Sound env history)
    {part : Handle → Option RowImage} (hpart : Parts env history scope images part)
    (hentry : scope.entries[handle]? = some entry) {id : Int64} (hid : entry.record.id = some id) :
    (settle images scope).visibleRow env entry.record.model.tableName id.toUInt64 =
      match part handle with
      | some image => .ok (image.content.map (·.1))
      | none => scope.visibleRow env entry.record.model.tableName id.toUInt64 := by
  rcases find?_foldl_stageImage images scope.staged (entry.record.model.tableName, id.toUInt64) with
    ⟨image, himage, hkey, hfind⟩ | ⟨hother, hfind⟩
  · -- The image for the row is the one of the record.
    rcases (hpart.mem_iff image).1 himage with ⟨other, old, hold, hsome⟩
    have hmade := hpart.made other old hold
    rw [hsome] at hmade
    rcases hmade.some_cases with ⟨hmodel, key, holdKey, hnumber⟩
    unfold imageKey at hkey
    rw [hmodel, hnumber, Prod.mk.injEq] at hkey
    have hsame := h.handle_unique hregistry hentry hold hid holdKey hkey.1 hkey.2
    subst hsame
    rw [hsome]
    exact visibleRow_of_staged hfind
  · -- No image is for the row, so the record has none.
    cases hnone : part handle with
    | none => exact visibleRow_congr hfind
    | some image =>
        have hmade := hpart.made handle entry hentry
        rw [hnone] at hmade
        rcases hmade.some_cases with ⟨hmodel, key, hkey, hnumber⟩
        rw [hid] at hkey
        cases hkey
        refine absurd ?_ (hother image ((hpart.mem_iff image).2 ⟨handle, entry, hentry, hnone⟩))
        unfold imageKey
        rw [hmodel, hnumber]

/-- A row that is visible after settling was written for a record, or was visible before. -/
theorem of_visibleRow_settle {part : Handle → Option RowImage}
    (hpart : Parts env history scope images part) {table : String} {number : UInt64}
    {row : StoredRow} (h : (settle images scope).visibleRow env table number = .ok (some row)) :
    scope.visibleRow env table number = .ok (some row) ∨
    ∃ (handle : Handle) (entry : Entry) (id : Int64) (columns : List (String × Value)),
      scope.entries[handle]? = some entry ∧ entry.record.model.tableName = table ∧
      entry.record.id = some id ∧ id.toUInt64 = number ∧ row.Holds columns ∧
        entry.record.model.Fits columns := by
  rcases find?_foldl_stageImage images scope.staged (table, number) with
    ⟨image, himage, hkey, hfind⟩ | ⟨-, hfind⟩
  · rcases (hpart.mem_iff image).1 himage with ⟨handle, entry, hentry, hsome⟩
    have hmade := hpart.made handle entry hentry
    rw [hsome] at hmade
    have hrow : (settle images scope).visibleRow env table number = .ok (image.content.map (·.1)) :=
      visibleRow_of_staged hfind
    rw [h] at hrow
    refine Or.inr ?_
    cases hmade with
    | inserted id new columns _ hid hholds hfits _ =>
        cases hrow
        cases hkey
        exact ⟨handle, entry, id, columns, hentry, rfl, hid, rfl, hholds, hfits⟩
    | updated id new columns _ hid hholds hfits _ =>
        cases hrow
        cases hkey
        exact ⟨handle, entry, id, columns, hentry, rfl, hid, rfl, hholds, hfits⟩
    | deleted id _ hid => cases hrow
  · rw [visibleRow_congr hfind] at h
    exact Or.inl h

/-! ## Records after settling -/

/-- A record that is to stay is stored, and nothing is marked. -/
theorem settleEntry_of_isLive (hlive : entry.state.isLive = true) :
    settleEntry entry = { record := entry.record.clearChanges, state := .persistent } := by
  unfold settleEntry
  rw [if_pos hlive]
  cases hstate : entry.state with
  | pending => rfl
  | persistent => rfl
  | deleted =>
      rw [hstate] at hlive
      cases hlive
  | removed =>
      rw [hstate] at hlive
      cases hlive

/-- A record that has been written, or that had nothing to write. -/
theorem EntrySound.settle_persistent (h : scope.EntrySound env history handle entry)
    (hlive : entry.state.isLive = true) {id : Int64} (hid : entry.record.id = some id)
    {row : StoredRow} {columns : List (String × Value)}
    (hrow : (settle images scope).visibleRow env entry.record.model.tableName id.toUInt64 =
      .ok (some row))
    (hholds : row.Holds columns)
    (hcolumns : ∀ column, entry.record.model.DataColumn column →
      history.Explains env scope.supply.drawn handle entry.record.clearChanges id column
        (storedColumn columns column.name)) :
    (settle images scope).EntrySound env history handle (settleEntry entry) := by
  rw [settleEntry_of_isLive hlive]
  constructor
  case registered => exact h.registered
  case identified => exact h.identified
  case numbered => exact h.numbered
  case numbered_here =>
    intro _ _ _ hstate
    cases hstate
  case present =>
    intro _
    exact ⟨id, row, hid, hrow⟩
  case absent =>
    rintro (hstate | hstate)
    · cases hstate
    · cases hstate
  case marked =>
    intro _ column _ hchanged
    cases hchanged
  case unassigned =>
    intro hstate
    cases hstate
  case explained =>
    intro _ key found others hkey hfound hothers column hdata _
    -- Row and columns are determined by the key, so they are the ones that were written.
    have hkey' : entry.record.id = some key := hkey
    rw [hid] at hkey'
    cases hkey'
    change
      (settle images scope).visibleRow env entry.record.model.tableName id.toUInt64 = _ at hfound
    rw [hrow] at hfound
    cases hfound
    obtain rfl := hholds.unique hothers
    exact hcolumns column hdata

/-- A record that has gone away, or had gone already. -/
theorem EntrySound.settle_removed (h : scope.EntrySound env history handle entry)
    (hgone : entry.state.isLive = false)
    (hrow : ∀ id row, entry.record.id = some id →
      (settle images scope).visibleRow env entry.record.model.tableName id.toUInt64 ≠
        .ok (some row)) :
    (settle images scope).EntrySound env history handle (settleEntry entry) := by
  have hsettled : settleEntry entry = { record := entry.record, state := .removed } := by
    unfold settleEntry
    rw [hgone]
    cases hstate : entry.state with
    | pending =>
        rw [hstate] at hgone
        cases hgone
    | persistent =>
        rw [hstate] at hgone
        cases hgone
    | deleted => rfl
    | removed => rfl
  rw [hsettled]
  constructor
  case registered => exact h.registered
  case identified => exact h.identified
  case numbered => exact h.numbered
  case numbered_here =>
    intro _ _ _ hstate
    cases hstate
  case present =>
    rintro (hstate | hstate)
    · cases hstate
    · cases hstate
  case absent =>
    intro _ id row hid
    exact hrow id row hid
  case marked =>
    intro hlive
    cases hlive
  case unassigned =>
    intro hstate
    cases hstate
  case explained =>
    intro hstate
    cases hstate

theorem Sound.settle_entry (hregistry : env.registry.Consistent) (h : scope.Sound env history)
    {part : Handle → Option RowImage} (hpart : Parts env history scope images part)
    (hentry : scope.entries[handle]? = some entry) :
    (settle images scope).EntrySound env history handle (settleEntry entry) := by
  have hsound := h.entries handle entry hentry
  have hrow := fun (id : Int64) (hid : entry.record.id = some id) =>
    visibleRow_settle hregistry h hpart hentry hid
  have hmade := hpart.made handle entry hentry
  -- The image of the record is the last word on its row; without one the row stays.
  cases hcase : part handle with
  | some image =>
      rw [hcase] at hmade
      simp only [hcase] at hrow
      cases hmade with
      | inserted id row columns hstate hid hholds _ hcolumns =>
          refine hsound.settle_persistent (by rw [hstate]; rfl) hid (hrow id hid) hholds ?_
          intro column hdata
          exact hcolumns column hdata _ rfl
      | updated id row columns hstate hid hholds _ hcolumns =>
          refine hsound.settle_persistent (by rw [hstate]; rfl) hid (hrow id hid) hholds ?_
          intro column hdata
          exact (hcolumns column hdata).transfer rfl rfl (Nat.le_refl _)
      | deleted id hstate hid =>
          refine hsound.settle_removed (by rw [hstate]; rfl) ?_
          intro key row hkey hvisible
          rw [hrow key hkey] at hvisible
          cases hvisible
  | none =>
      rw [hcase] at hmade
      simp only [hcase] at hrow
      cases hmade with
      | unchanged hstate hcolumns =>
          rcases hsound.present (Or.inl hstate) with ⟨id, row, hid, hvisible⟩
          rcases h.rows_fit _ hsound.registered id.toUInt64 row hvisible with ⟨columns, hholds, -⟩
          refine hsound.settle_persistent (by rw [hstate]; rfl) hid ((hrow id hid).trans hvisible)
            hholds ?_
          intro column hdata
          exact (hsound.explained hstate id row columns hid hvisible hholds column hdata
            (hcolumns column hdata)).transfer rfl rfl (Nat.le_refl _)
      | removed hstate =>
          refine hsound.settle_removed (by rw [hstate]; rfl) ?_
          intro id row hid hvisible
          rw [hrow id hid] at hvisible
          exact hsound.absent (Or.inr hstate) id row hid hvisible

/-! ## Scopes after settling -/

theorem of_getElem?_settle {new : Entry}
    (h : (settle images scope).entries[handle]? = some new) :
    ∃ old, scope.entries[handle]? = some old ∧ settleEntry old = new := by
  rw [getElem?_settle] at h
  exact Option.map_eq_some_iff.1 h

theorem settleEntry_model (entry : Entry) :
    (settleEntry entry).record.model = entry.record.model := by
  unfold settleEntry
  by_cases hlive : entry.state.isLive = true
  · rw [if_pos hlive]
    rfl
  · rw [if_neg hlive]

theorem settleEntry_id (entry : Entry) : (settleEntry entry).record.id = entry.record.id := by
  unfold settleEntry
  by_cases hlive : entry.state.isLive = true
  · rw [if_pos hlive]
    rfl
  · rw [if_neg hlive]

theorem carries_settle (images : List RowImage) (scope : Scope) :
    scope.Carries (settle images scope) := by
  intro handle entry hentry
  refine ⟨settleEntry entry, ?_, settleEntry_model entry, fun id hid => ?_⟩
  · rw [getElem?_settle, hentry]
    rfl
  · exact (settleEntry_id entry).trans hid

theorem Sound.settle (hregistry : env.registry.Consistent) (h : scope.Sound env history)
    (himages : ImagesOf env history scope scope.handles images) :
    (settle images scope).Sound env history := by
  rcases himages.exists_parts with ⟨part, hpart⟩
  have hcarries := carries_settle images scope
  constructor
  case entries =>
    intro handle new hnew
    rcases of_getElem?_settle hnew with ⟨old, hold, rfl⟩
    exact h.settle_entry hregistry hpart hold
  case identity =>
    intro name id handle hfind
    exact hcarries.identity (h.identity name id handle hfind)
  case rows_fit =>
    intro model hmodel number row hvisible
    rcases of_visibleRow_settle hpart hvisible with hbefore |
      ⟨handle, entry, id, columns, hentry, htable, -, -, hholds, hfits⟩
    · exact h.rows_fit model hmodel number row hbefore
    · have hsame :=
        hregistry.eq_of_tableName (h.entries handle entry hentry).registered hmodel htable
      rw [hsame] at hfits
      exact ⟨columns, hholds, hfits⟩
  case rows_numbered =>
    intro model hmodel number row sequence value hvisible hsequence hvalue
    rcases of_visibleRow_settle hpart hvisible with hbefore |
      ⟨handle, entry, id, columns, hentry, htable, hid, hnumber, -, -⟩
    · exact h.rows_numbered model hmodel number row sequence value hbefore hsequence hvalue
    -- A row that was written has the key of its record, which its sequence has given.
    · have hsound := h.entries handle entry hentry
      have hsame := hregistry.eq_of_tableName hsound.registered hmodel htable
      rw [← hsame] at hsequence
      have hle := hsound.numbered id sequence value hid hsequence hvalue
      have hpositive := (hsound.identified id hid).1
      have hnat := toNat_toUInt64 hpositive
      rw [hnumber] at hnat
      omega
  case staged =>
    intro table number row hstaged
    rcases find?_foldl_stageImage images scope.staged (table, number) with
      ⟨image, himage, hkey, -⟩ | ⟨-, hfind⟩
    · rcases (hpart.mem_iff image).1 himage with ⟨handle, entry, hentry, hsome⟩
      have hmade := hpart.made handle entry hentry
      rw [hsome] at hmade
      rcases hmade.some_cases with ⟨hmodel, id, hid, hnumber⟩
      unfold imageKey at hkey
      rw [hmodel, hnumber, Prod.mk.injEq] at hkey
      exact hcarries.staged ⟨handle, entry, id, hentry, hkey.1, hid, hkey.2⟩
    · have hbefore : scope.staged.find? (table, number) = some row := hfind.symm.trans hstaged
      exact hcarries.staged (h.staged table number row hbefore)
  case sequences => exact h.sequences
  case links =>
    intro handle column target hlink
    exact hcarries.isReference (h.links handle column target hlink)
  case fresh =>
    intro handle hhandle column
    refine h.fresh handle ?_ column
    have hlength : (Scope.settle images scope).entries.length = scope.entries.length :=
      List.length_map ..
    rw [← hlength]
    exact hhandle
  case supply => exact h.supply

/-- After settling no record is new any more, and none is marked. -/
def Settled (scope : Scope) : Prop :=
  ∀ (handle : Handle) (entry : Entry), scope.entries[handle]? = some entry →
    (entry.state = .persistent ∧ entry.record.changed = ∅) ∨ entry.state = .removed

theorem settled_settle (images : List RowImage) (scope : Scope) :
    (settle images scope).Settled := by
  intro handle new hnew
  rcases of_getElem?_settle hnew with ⟨old, -, rfl⟩
  unfold settleEntry
  cases old.state with
  | pending => exact Or.inl ⟨rfl, rfl⟩
  | persistent => exact Or.inl ⟨rfl, rfl⟩
  | deleted => exact Or.inr rfl
  | removed => exact Or.inr rfl

theorem Settled.ready (h : scope.Settled) (history : History) : scope.Ready history := by
  intro handle entry hentry hpending
  rcases h handle entry hentry with ⟨hstate, -⟩ | hstate
  · rw [hpending] at hstate
    cases hstate
  · rw [hpending] at hstate
    cases hstate

/-! ## Flushing -/

/-- A flush keeps a scope sound, however far it comes, and settles it when it succeeds. -/
theorem flush_ends (hregistry : env.registry.Consistent)
    (hcount : ∀ model ∈ env.registry.models, model.columns.length < 4294967296)
    (h : scope.SoundReady env history) :
    (flush env).Ends scope (fun _ after => after.SoundReady env history ∧ after.Settled)
      (SoundReady env history) := by
  unfold flush
  refine ScopeM.ends_bind (assignIds_ends hregistry h) ?_
  intro _ keyed hkeyed
  refine ScopeM.ends_bind ((resolveLinks_ends hregistry hkeyed.1).mono (fun _ _ hdone => hdone)
    fun _ hfailed => hkeyed.of_follows hfailed) ?_
  intro _ filled hfilled
  have hready := hkeyed.of_follows hfilled
  unfold rowImages
  refine ScopeM.ends_bind (ScopeM.ends_get_bind ((imagesOf_ends hregistry hcount hready
    filled.handles).mono (fun _ _ hdone => hdone) fun _ hfailed => hready.of_follows hfailed)) ?_
  rintro images imaged ⟨himaged, himages⟩
  have hsound := hready.of_follows himaged
  refine ScopeM.ends_get_bind (ScopeM.ends_lift_bind ?_ hsound)
  intro _ _
  have hhandles : imaged.handles = filled.handles := by
    unfold handles
    rw [himaged.length_eq]
  rw [← hhandles] at himages
  exact ScopeM.ends_modify ⟨⟨hsound.1.settle hregistry himages,
    (settled_settle images imaged).ready history⟩, settled_settle images imaged⟩

end Scope

end RecordStore
