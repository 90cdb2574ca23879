import RecordStore.Proofs.Scope.Commit
import RecordStore.Proofs.Scope.Keys

/-!
# Intact scopes

`Scope.Intact` collects what holds of the open scope of a database at any time, with the parts that
depend on the terms its acts are held to.  Every move keeps it, so every action does
(`Scope.Intact.reaches`).  A storage is intact when a scope opened over it is; it still is after an
intact scope was written to it (`Scope.Intact.stored_over`).
-/

namespace RecordStore

namespace Scope

variable {env : Environment} {terms : Terms} {deleted : List (String × UInt64)}
  {scope before after : Scope} {images : List RowImage} {handle : Handle} {s : Standing}

/-! ## Columns of images -/

/-- Each column of an image is written anew, or kept from the row of a record that is stored. -/
theorem Image.column_cases (hregistry : env.registry.Consistent)
    (hmodel : s.model ∈ env.registry.models) {image : RowImage} (h : Image env scope s (some image))
    {row : StoredRow} {columns : List (String × Value)} (hcontent : image.content = some (row, columns))
    {column : Column} (hmem : column ∈ s.model.columns) :
    ∃ id, s.id = some id ∧ image.id = id.toUInt64 ∧
      (column.Written s.model.tableName id (storedColumn columns column.name) ∨
        column.primaryKey = false ∧ s.state = .persistent ∧ ∃ existing stored,
          scope.visibleRow env s.model.tableName id.toUInt64 = .ok existing ∧
          existingColumns existing = .ok stored ∧
          storedColumn columns column.name = storedColumn stored column.name) := by
  obtain ⟨place, -, hcompiled⟩ := hregistry.mem_compiled hmodel
  cases h with
  | inserted id made written _ hid _ _ hcolumns =>
      cases hcontent
      have hwritten : column.Written s.model.tableName id (storedColumn columns column.name) :=
        storedColumn_of_forall₂ hcompiled.columns_nodup hcolumns hmem
      exact ⟨id, hid, rfl, Or.inl hwritten⟩
  | updated id made written stored existing hstate hid _ _ hexisting hstored hcolumns =>
      cases hcontent
      have hwritten : column.Written s.model.tableName id (storedColumn columns column.name) ∨
          column.primaryKey = false ∧
            storedColumn columns column.name = storedColumn stored column.name :=
        @storedColumn_of_forall₂ (fun column value =>
          column.Written s.model.tableName id value ∨
            column.primaryKey = false ∧ value = storedColumn stored column.name) _ _
          hcompiled.columns_nodup hcolumns column hmem
      refine ⟨id, hid, rfl, hwritten.imp_right ?_⟩
      rintro ⟨hdata, hkept⟩
      exact ⟨hdata, hstate, existing, stored, hexisting, hstored, hkept⟩
  | deleted => cases hcontent

/-! ## Columns that may not be empty -/

/-- No visible row is empty in a column that may not be empty. -/
def Filled (env : Environment) (scope : Scope) : Prop :=
  ∀ model ∈ env.registry.models, ∀ number columns, scope.Shows env model number columns →
    ∀ column ∈ model.columns, column.nullable = false → storedColumn columns column.name ≠ .null

/-- A record that stands for a row writes no empty value: what it does not write anew is kept from
the row. -/
theorem Image.ne_null (hregistry : env.registry.Consistent)
    (hcount : ∀ model ∈ env.registry.models, model.columns.length < 4294967296)
    (hrows : scope.SoundRows env deleted) (hkeyed : scope.Keyed env) (hfilled : scope.Filled env)
    (hs : scope.standing handle = some s) (hmodel : s.model ∈ env.registry.models)
    {image : RowImage} (h : Image env scope s (some image)) {row : StoredRow}
    {columns : List (String × Value)} (hcontent : image.content = some (row, columns))
    {column : Column} (hmem : column ∈ s.model.columns) (hnullable : column.nullable = false) :
    storedColumn columns column.name ≠ .null := by
  obtain ⟨id, hid, -, hnew | ⟨-, hstate, existing, stored, hexisting, hstored, hkept⟩⟩ :=
    h.column_cases hregistry hmodel hcontent hmem
  · exact hnew.ne_null hnullable
  · -- The record is stored, so its row is there.
    obtain ⟨key, found, hkey, hvisible⟩ := (hkeyed.records handle s hs).present (Or.inl hstate)
    obtain rfl := Option.some.inj (hid.symm.trans hkey)
    obtain rfl := Except.ok.inj (hexisting.symm.trans hvisible)
    obtain ⟨others, hothers⟩ := hrows.written _ hmodel _ found hvisible
    obtain rfl := (hothers.holds (hcount _ hmodel)).of_decodeRow (ofData_eq_ok.1 hstored)
    rw [hkept]
    exact hfilled _ hmodel _ _ ⟨found, hvisible, hothers⟩ column hmem hnullable

theorem Filled.move (hregistry : env.registry.Consistent)
    (hcount : ∀ model ∈ env.registry.models, model.columns.length < 4294967296)
    (hrooted : before.Rooted env) (hrows : before.SoundRows env deleted) (hkeyed : before.Keyed env)
    (h : before.Filled env) (hmove : Move env terms before after) : after.Filled env := by
  intro model hmodel number columns hshows column hcolumn hnullable
  rcases hmove.staged_cases with hstaged | ⟨images, himages, -, rfl⟩
  · exact h model hmodel number columns (hshows.congr hstaged) column hcolumn hnullable
  · have hwrote := himages.wrote hregistry hcount hrooted hrows
    rcases shows_settle hregistry hwrote hcount hmodel hshows with
      ⟨image, himage, rfl, -, row, hcontent⟩ | hbefore
    · obtain ⟨handle, s, hs, hmade⟩ := himages.made image himage
      have hsame := hmade.some_cases.1
      exact hmade.ne_null hregistry hcount hrows hkeyed h hs (hrooted.registered handle s hs) hcontent
        (hsame ▸ hcolumn) hnullable
    · exact h model hmodel number columns hbefore column hcolumn hnullable

/-! ## Keys in rows -/

/-- Every visible row holds its number as its key. -/
def HoldsKeys (env : Environment) (scope : Scope) : Prop :=
  ∀ model ∈ env.registry.models, ∀ number columns, scope.Shows env model number columns →
    ∀ column ∈ model.columns, column.primaryKey = true →
      storedColumn columns column.name = .integer number.toInt64

theorem Image.holdsKey (hregistry : env.registry.Consistent) (hmodel : s.model ∈ env.registry.models)
    {image : RowImage} (h : Image env scope s (some image)) {row : StoredRow}
    {columns : List (String × Value)} (hcontent : image.content = some (row, columns))
    {column : Column} (hmem : column ∈ s.model.columns) (hprimary : column.primaryKey = true) :
    storedColumn columns column.name = .integer image.id.toInt64 := by
  obtain ⟨id, -, hnumber, hnew | ⟨hdata, -⟩⟩ := h.column_cases hregistry hmodel hcontent hmem
  · rw [hnew.eq_key hprimary, hnumber, Int64.toInt64_toUInt64]
  · rw [hprimary] at hdata
    cases hdata

theorem HoldsKeys.move (hregistry : env.registry.Consistent)
    (hcount : ∀ model ∈ env.registry.models, model.columns.length < 4294967296)
    (hrooted : before.Rooted env) (hrows : before.SoundRows env deleted) (h : before.HoldsKeys env)
    (hmove : Move env terms before after) : after.HoldsKeys env := by
  intro model hmodel number columns hshows column hcolumn hprimary
  rcases hmove.staged_cases with hstaged | ⟨images, himages, -, rfl⟩
  · exact h model hmodel number columns (hshows.congr hstaged) column hcolumn hprimary
  · have hwrote := himages.wrote hregistry hcount hrooted hrows
    rcases shows_settle hregistry hwrote hcount hmodel hshows with
      ⟨image, himage, rfl, rfl, row, hcontent⟩ | hbefore
    · obtain ⟨handle, s, hs, hmade⟩ := himages.made image himage
      exact hmade.holdsKey hregistry (hrooted.registered handle s hs) hcontent
        (hmade.some_cases.1 ▸ hcolumn) hprimary
    · exact h model hmodel number columns hbefore column hcolumn hprimary

/-! ## Scopes in which nothing is deleted -/

/-- No record goes away, and no row does. -/
structure Lasting (scope : Scope) : Prop where
  live : ∀ handle s, scope.standing handle = some s → s.state.isLive = true
  kept : ∀ key, scope.staged.find? key ≠ some none

theorem lasting_empty (supply : Supply) : Lasting { supply } where
  live _ _ h := by cases h
  kept _ h := by cases h

theorem Lasting.move (hterms : terms.undeleted) (h : before.Lasting)
    (hmove : Move env terms before after) : after.Lasting := by
  constructor
  case live =>
    intro handle s hs
    cases hmove with
    | steady hsteady => exact h.live handle s ((hsteady.standing handle).symm.trans hs)
    | exhaust => exact h.live handle s hs
    | @giveKey other model sequence current _ id hnew =>
        rw [standing_giveKey (before.advance sequence (current + 1)) hnew] at hs
        by_cases hsame : other = handle
        · rw [if_pos hsame] at hs
          cases hs
          rfl
        · rw [if_neg hsame] at hs
          exact h.live handle s hs
    | enter | adopt =>
        rw [standing_appendAs] at hs
        by_cases hnew : handle = before.entries.length
        · rw [if_pos hnew] at hs
          cases hs
          rfl
        · rw [if_neg hnew] at hs
          exact h.live handle s hs
    | withdraw _ hdeleting => exact absurd hterms hdeleting
    | settle =>
        rw [standing_settle] at hs
        obtain ⟨old, hold, rfl⟩ := Option.map_eq_some_iff.1 hs
        have hlive := h.live handle old hold
        cases hstate : old.state with
        | pending | persistent => rfl
        | deleted | removed => simp [hstate, Lifecycle.isLive] at hlive
  case kept =>
    intro key hfind
    rcases hmove.staged_cases with hstaged | ⟨images, himages, -, rfl⟩
    · rw [hstaged] at hfind
      exact h.kept key hfind
    · rcases find?_foldl_stageImage images before.staged key with
        ⟨image, himage, -, hstaged⟩ | ⟨-, hstaged⟩
      · -- The image would be that of a record that is deleted.
        obtain ⟨handle, s, hs, hmade⟩ := himages.made image himage
        have hnone := Option.some.inj (hstaged.symm.trans hfind)
        have hlive := h.live handle s hs
        cases hmade with
        | inserted | updated => cases hnone
        | deleted _ hstate => simp [hstate, Lifecycle.isLive] at hlive
      · exact h.kept key (hstaged.symm.trans hfind)

/-! ## Sequences -/

/-- Where numbers were drawn the table is in the catalog, and the first number went to a record. -/
structure Drawn (env : Environment) (scope : Scope) : Prop where
  cataloged : ∀ model ∈ env.registry.models, ∀ sequence n, model.sequence? = some sequence →
    scope.sequences.find? sequence = some n →
      ∃ schema, env.storage.table? model.tableName = .ok (some schema)
  started : ∀ model ∈ env.registry.models, ∀ sequence n, model.sequence? = some sequence →
    scope.sequences.find? sequence = some n → env.storage.sequenceValue sequence = .ok 0 →
      ∃ handle s, scope.standing handle = some s ∧ s.model = model ∧ s.id = some 1

theorem drawn_empty (env : Environment) (supply : Supply) : Drawn env { supply } where
  cataloged _ _ _ _ _ h := by cases h
  started _ _ _ _ _ h := by cases h

/-- Tables do not share sequences. -/
theorem model_eq_of_sequence? (hregistry : env.registry.Consistent) {model other : Model}
    (hmodel : model ∈ env.registry.models) (hother : other ∈ env.registry.models) {sequence : String}
    (hsequence : model.sequence? = some sequence) (hsequence' : other.sequence? = some sequence) :
    model = other := by
  obtain ⟨_, -, hcompiled⟩ := hregistry.mem_compiled hmodel
  obtain ⟨_, -, hcompiled'⟩ := hregistry.mem_compiled hother
  rw [hcompiled.sequence?_eq] at hsequence
  rw [hcompiled'.sequence?_eq, ← hsequence] at hsequence'
  refine hregistry.eq_of_tableName hmodel hother (String.toList_inj.1 ?_)
  have hchars := congrArg String.toList (Option.some.inj hsequence')
  simp only [sequenceName, String.toList_append] at hchars
  exact (List.append_cancel_right hchars).symm

/-- The first number of a scope is drawn where the storage stands, a later one after it was. -/
theorem find?_of_sequenceValue_pos {sequence : String} {current : Nat}
    (hcurrent : scope.sequenceValue env sequence = .ok current) (hpos : current ≠ 0)
    (hzero : env.storage.sequenceValue sequence = .ok 0) :
    scope.sequences.find? sequence = some current := by
  unfold sequenceValue at hcurrent
  cases hfind : scope.sequences.find? sequence with
  | some value =>
      simp only [hfind] at hcurrent
      cases hcurrent
      rfl
  | none =>
      simp only [hfind] at hcurrent
      exact absurd (Except.ok.inj (hcurrent.symm.trans hzero)) hpos

theorem Drawn.of_same_sequences (h : before.Drawn env) (hmove : Move env terms before after)
    (hsequences : after.sequences = before.sequences) : after.Drawn env where
  cataloged := by
    rw [hsequences]
    exact h.cataloged
  started model hmodel sequence n hsequence hfind hzero := by
    rw [hsequences] at hfind
    obtain ⟨handle, s, hs, hsame, hid⟩ := h.started model hmodel sequence n hsequence hfind hzero
    obtain ⟨s', hs', hmodel', hid'⟩ := hmove.carries hs
    exact ⟨handle, s', hs', hmodel'.trans hsame, hid' 1 hid⟩

theorem Drawn.draw (hregistry : env.registry.Consistent) (h : before.Drawn env)
    (hmove : Move env terms before after) {model : Model} (hmodel : model ∈ env.registry.models)
    {sequence : String} (hsequence : model.sequence? = some sequence) {schema : TableSchema}
    (hschema : env.storage.table? model.tableName = .ok (some schema)) {current : Nat}
    (hcurrent : before.sequenceValue env sequence = .ok current)
    (hsequences : after.sequences = before.sequences.insert sequence (current + 1))
    (hfirst : current = 0 → ∃ handle s, after.standing handle = some s ∧ s.model = model ∧
      s.id = some 1) : after.Drawn env where
  cataloged other hother sequence' n hsequence' hfind := by
    rw [hsequences, SortedMap.find?_insert] at hfind
    by_cases hsame : sequence' = sequence
    · subst hsame
      obtain rfl := model_eq_of_sequence? hregistry hmodel hother hsequence hsequence'
      exact ⟨schema, hschema⟩
    · rw [if_neg hsame] at hfind
      exact h.cataloged other hother sequence' n hsequence' hfind
  started other hother sequence' n hsequence' hfind hzero := by
    rw [hsequences, SortedMap.find?_insert] at hfind
    have hcarried : ∀ m, before.sequences.find? sequence' = some m →
        ∃ handle s, after.standing handle = some s ∧ s.model = other ∧ s.id = some 1 := by
      intro m hm
      obtain ⟨handle, s, hs, hsame, hid⟩ := h.started other hother sequence' m hsequence' hm hzero
      obtain ⟨s', hs', hmodel', hid'⟩ := hmove.carries hs
      exact ⟨handle, s', hs', hmodel'.trans hsame, hid' 1 hid⟩
    by_cases hsame : sequence' = sequence
    · subst hsame
      obtain rfl := model_eq_of_sequence? hregistry hmodel hother hsequence hsequence'
      by_cases hnew : current = 0
      · exact hfirst hnew
      · exact hcarried current (find?_of_sequenceValue_pos hcurrent hnew hzero)
    · rw [if_neg hsame] at hfind
      exact hcarried n hfind

theorem Drawn.move (hregistry : env.registry.Consistent) (hrooted : before.Rooted env)
    (h : before.Drawn env) (hmove : Move env terms before after) : after.Drawn env := by
  have hstep := hmove
  cases hmove with
  | steady hsteady => exact h.of_same_sequences hstep hsteady.sequences
  | exhaust hnew hschema hsequence hcurrent hlarge =>
      refine h.draw hregistry hstep (hrooted.registered _ _ hnew) hsequence hschema hcurrent rfl ?_
      intro hzero
      omega
  | @giveKey handle model sequence current _ id hnew hschema hsequence hcurrent hid =>
      refine h.draw hregistry hstep (hrooted.registered _ _ hnew) hsequence hschema hcurrent rfl ?_
      rintro rfl
      obtain rfl : id = 1 := Int64.toInt_inj.1 hid
      exact ⟨handle, _, (standing_giveKey (before.advance sequence 1) hnew _ _ handle).trans
        (if_pos rfl), rfl, rfl⟩
  | enter | adopt | withdraw | settle => exact h.of_same_sequences hstep rfl

/-! ## All together -/

/-- What holds of the open scope of a database, with the rows that committed scopes have deleted. -/
structure Intact (env : Environment) (terms : Terms) (deleted : List (String × UInt64))
    (scope : Scope) : Prop where
  rooted : scope.Rooted env
  rows : scope.SoundRows env deleted
  holdsKeys : scope.HoldsKeys env
  keyed : terms.grounded → scope.Keyed env
  filled : terms.grounded → scope.Filled env
  lasting : terms.undeleted → scope.Lasting ∧ deleted = []
  drawn : scope.Drawn env

namespace Intact

theorem move (hregistry : env.registry.Consistent)
    (hcount : ∀ model ∈ env.registry.models, model.columns.length < 4294967296)
    (h : before.Intact env terms deleted) (hmove : Move env terms before after) :
    after.Intact env terms deleted where
  rooted := h.rooted.move hmove
  rows := h.rows.move hregistry hcount h.rooted hmove
  holdsKeys := h.holdsKeys.move hregistry hcount h.rooted h.rows hmove
  keyed hterms := (h.keyed hterms).move hregistry hterms h.rooted hmove
  filled hterms := (h.filled hterms).move hregistry hcount h.rooted h.rows (h.keyed hterms) hmove
  lasting hterms := ⟨(h.lasting hterms).1.move hterms hmove, (h.lasting hterms).2⟩
  drawn := h.drawn.move hregistry h.rooted hmove

theorem reaches (hregistry : env.registry.Consistent)
    (hcount : ∀ model ∈ env.registry.models, model.columns.length < 4294967296)
    (h : scope.Intact env terms deleted) (hreaches : scope.Reaches env terms after) :
    after.Intact env terms deleted := by
  induction hreaches with
  | refl => exact h
  | tail _ hmove ih => exact ih.move hregistry hcount hmove

/-! ## Scopes over storages -/

/-- A scope over a storage that has no rows for registered models is intact. -/
theorem of_no_rows (hempty : ∀ model ∈ env.registry.models, ∀ number row,
    env.storage.row? model.tableName number ≠ .ok (some row)) (supply : Supply) :
    ({ supply } : Scope).Intact env terms [] where
  rooted := rooted_empty env supply
  rows := {
    written := fun model hmodel number row hrow => absurd hrow (hempty model hmodel number row)
    unique := fun model hmodel _ _ _ a _ _ _ _ hshows =>
      absurd hshows.choose_spec.1 (hempty model hmodel a _)
    references := fun model hmodel number _ hshows =>
      absurd hshows.choose_spec.1 (hempty model hmodel number _) }
  holdsKeys model hmodel number _ hshows :=
    absurd hshows.choose_spec.1 (hempty model hmodel number _)
  keyed _ := {
    records := fun _ _ hs => by cases hs
    rows := fun model hmodel number row hrow => absurd hrow (hempty model hmodel number row) }
  filled _ model hmodel number _ hshows :=
    absurd hshows.choose_spec.1 (hempty model hmodel number _)
  lasting _ := ⟨lasting_empty supply, rfl⟩
  drawn := drawn_empty env supply

end Intact

/-- The rows that a scope has deleted. -/
def deletions (scope : Scope) : List (String × UInt64) :=
  scope.staged.toList.filterMap fun entry => if entry.2.isNone then some entry.1 else none

theorem mem_deletions {key : String × UInt64} :
    key ∈ scope.deletions ↔ scope.staged.find? key = some none := by
  unfold deletions
  rw [List.mem_filterMap, SortedMap.find?_eq_some_iff]
  constructor
  · rintro ⟨⟨found, row⟩, hmem, hsome⟩
    cases row with
    | none =>
        cases hsome
        exact hmem
    | some row => cases hsome
  · intro hmem
    exact ⟨(key, none), hmem, rfl⟩

section

variable {storage : Storage}
  (hrow : ∀ table number, storage.row? table number = scope.visibleRow env table number)

include hrow

/-- What a scope that was just opened sees is what is stored. -/
theorem shows_of_stored {supply : Supply} {model : Model} {number : UInt64}
    {columns : List (String × Value)}
    (h : ({ supply } : Scope).Shows { env with storage } model number columns) :
    scope.Shows env model number columns := by
  obtain ⟨row, hstored, hcolumns⟩ := h
  exact ⟨row, (hrow _ _).symm.trans hstored, hcolumns⟩

theorem SoundRows.stored_over (h : scope.SoundRows env deleted) (supply : Supply) :
    ({ supply } : Scope).SoundRows { env with storage } (scope.deletions ++ deleted) where
  written model hmodel number row hstored :=
    h.written model hmodel number row ((hrow _ _).symm.trans hstored)
  unique model hmodel column hcolumn hunique a b as bs hne ha hb :=
    h.unique model hmodel column hcolumn hunique a b as bs hne (shows_of_stored hrow ha)
      (shows_of_stored hrow hb)
  references model hmodel number columns hshows column hcolumn key hkey hpresent := by
    obtain ⟨n, hn, hpositive, hthere⟩ := h.references model hmodel number columns
      (shows_of_stored hrow hshows) column hcolumn key hkey hpresent
    refine ⟨n, hn, hpositive, ?_⟩
    rcases hthere with ⟨target, htarget⟩ | hstaged | hbefore
    · exact Or.inl ⟨target, (hrow _ _).trans htarget⟩
    · exact Or.inr (Or.inr (List.mem_append_left _ (mem_deletions.2 hstaged)))
    · exact Or.inr (Or.inr (List.mem_append_right _ hbefore))

theorem Keyed.stored_over (h : scope.Keyed env)
    (hsequences : ∀ sequence value, storage.sequenceValue sequence = .ok value →
      ∃ reached, scope.sequenceValue env sequence = .ok reached ∧ reached ≤ value)
    (supply : Supply) : ({ supply } : Scope).Keyed { env with storage } where
  records _ _ hs := by cases hs
  rows model hmodel number row hstored := by
    obtain ⟨hpositive, hnumbered⟩ := h.rows model hmodel number row ((hrow _ _).symm.trans hstored)
    refine ⟨hpositive, ?_⟩
    intro sequence value hsequence hvalue
    obtain ⟨reached, hreached, hle⟩ := hsequences sequence value hvalue
    exact Nat.le_trans (hnumbered sequence reached hsequence hreached) hle

/-- A storage that holds what an intact scope saw, and whose sequences are not behind it, is intact. -/
theorem Intact.stored_over (h : scope.Intact env terms deleted)
    (hsequences : ∀ sequence value, storage.sequenceValue sequence = .ok value →
      ∃ reached, scope.sequenceValue env sequence = .ok reached ∧ reached ≤ value)
    (supply : Supply) :
    ({ supply } : Scope).Intact { env with storage } terms (scope.deletions ++ deleted) where
  rooted := rooted_empty _ supply
  rows := h.rows.stored_over hrow supply
  holdsKeys model hmodel number columns hshows :=
    h.holdsKeys model hmodel number columns (shows_of_stored hrow hshows)
  keyed hterms := (h.keyed hterms).stored_over hrow hsequences supply
  filled hterms model hmodel number columns hshows :=
    h.filled hterms model hmodel number columns (shows_of_stored hrow hshows)
  lasting hterms := by
    obtain ⟨hlasting, hnone⟩ := h.lasting hterms
    refine ⟨lasting_empty supply, ?_⟩
    rw [hnone, List.append_nil, List.eq_nil_iff_forall_not_mem]
    intro key hkey
    exact hlasting.kept key (mem_deletions.1 hkey)
  drawn := drawn_empty _ supply

end

end Scope

end RecordStore
