import RecordStore.Proofs.Records.Retaining
import RecordStore.Proofs.Scope.Intact
import RecordStore.Proofs.Scope.Reaching
import RecordStore.Proofs.Scope.Resolving

/-!
# What a flush leaves in a column

A flush writes to a column of a record that is to stay the stored form of its value where the column is
marked, and otherwise what is in the row already.  So it is known before a flush what the row is going to hold
in a column (`Scope.Leaves`): once all images are made and staged, it does, and will after any further flush
as long as the column is not marked again (`Scope.staging_leaves`).
-/

namespace RecordStore

/-- An image is that of a row that holds a value in a column. -/
def RowImage.Shows (image : RowImage) (column : Column) (stored : Value) : Prop :=
  ∃ row columns, image.content = some (row, columns) ∧ storedColumn columns column.name = stored

namespace Scope

variable {env : Environment} {start scope before after : Scope} {handle : Handle} {entry : Entry}
  {column : Column} {value stored : Value} {id : Int64} {deleted : List (String × UInt64)}

/-- A flush leaves a value in a column of a record: its mark says so, or the row that was staged last. -/
inductive Leaves (scope : Scope) (entry : Entry) (column : Column) (stored : Value) : Prop where
  | marked (value : Value) : entry.record.isChanged column.name = true →
      entry.record.values.find? column.name = some value →
      column.bind entry.record.model.tableName value = .ok stored → Leaves scope entry column stored
  | staged (id : Int64) (row : StoredRow) (columns : List (String × Value)) :
      entry.state = .persistent → entry.record.isChanged column.name = false →
      entry.record.id = some id →
      scope.staged.find? (entry.record.model.tableName, id.toUInt64) = some (some row) →
      row.Holds columns → storedColumn columns column.name = stored →
        Leaves scope entry column stored

/-- Only the rows that are staged, the column and its mark matter. -/
theorem Leaves.transfer (h : before.Leaves entry column stored) (hstaged : after.staged = before.staged)
    {new : Entry} (hstate : new.state = entry.state) (hmodel : new.record.model = entry.record.model)
    (hid : ∀ id, entry.record.id = some id → new.record.id = some id)
    (hchanged : new.record.isChanged column.name = entry.record.isChanged column.name)
    (hvalue : entry.record.isChanged column.name = true →
      new.record.values.find? column.name = entry.record.values.find? column.name) :
    after.Leaves new column stored := by
  cases h with
  | marked value hmarked hfound hbind =>
      refine .marked value (hchanged.trans hmarked) ((hvalue hmarked).trans hfound) ?_
      rw [hmodel]
      exact hbind
  | staged id row columns hpersistent hunmarked hkey hrow hholds hstored =>
      refine .staged id row columns (hstate.trans hpersistent) (hchanged.trans hunmarked) (hid id hkey) ?_
        hholds hstored
      rw [hstaged, hmodel]
      exact hrow

theorem Leaves.imaged (h : before.Leaves entry column stored) (himaged : before.Imaged after)
    (hentry : before.entries[handle]? = some entry) :
    ∃ record, after.entries[handle]? = some { entry with record } ∧
      record.model = entry.record.model ∧ record.id = entry.record.id ∧
      record.changed = entry.record.changed ∧ after.Leaves { entry with record } column stored := by
  obtain ⟨record, hrecord, hmodel, hid, hchanged, hvalues⟩ := himaged.entries handle entry hentry
  have hmark : record.isChanged column.name = entry.record.isChanged column.name := by
    simp [Record.isChanged, hchanged]
  refine ⟨record, hrecord, hmodel, hid, hchanged, ?_⟩
  refine h.transfer himaged.staged rfl hmodel (fun _ hkey => hid.trans hkey) hmark ?_
  -- What is marked takes no default.
  intro hmarked
  refine hvalues _ ?_
  rintro ⟨hunmarked, -⟩
  simp [hmarked] at hunmarked

/-! ## One image -/

/-- What is written for one column is found under its name. -/
theorem storedColumn_eq_of_forall₂ {columns : List Column} {written : List (String × Value)}
    (hdistinct : (columns.map (·.name)).Nodup) (hcolumn : column ∈ columns)
    (h : List.Forall₂ (fun (other : Column) (pair : String × Value) =>
      pair.1 = other.name ∧ (other = column → pair.2 = stored)) columns written) :
    storedColumn written column.name = stored :=
  @storedColumn_of_forall₂ (fun other found => other = column → found = stored) _ _ hdistinct h column
    hcolumn rfl

theorem insertColumn_leaves {record : Record} (hdata : column.primaryKey = false)
    (hmarked : record.isChanged column.name = true)
    (hvalue : record.values.find? column.name = some value)
    (hbind : column.bind record.model.tableName value = .ok stored) (scope : Scope) (handle : Handle)
    (id : Int64) :
    (insertColumn handle record id column).Ends scope (fun written _ => written = (column.name, stored))
      (fun _ => False) := by
  unfold insertColumn
  simp only [hdata, hmarked, Bool.false_eq_true, if_false, if_true]
  refine ScopeM.ends_lift_bind_of_ok (Record.get_eq_ok.2 hvalue) ?_
  exact ScopeM.ends_lift_bind_of_ok hbind (ScopeM.ends_pure rfl)

theorem insertColumns_leaves (env : Environment) {record : Record} (hdata : column.primaryKey = false)
    (hmarked : record.isChanged column.name = true)
    (hvalue : record.values.find? column.name = some value)
    (hbind : column.bind record.model.tableName value = .ok stored) (scope : Scope) (handle : Handle)
    (id : Int64) (columns : List Column) :
    (insertColumns handle record id columns).Ends scope
      (fun written _ => List.Forall₂ (fun (other : Column) (pair : String × Value) =>
        pair.1 = other.name ∧ (other = column → pair.2 = stored)) columns written)
      (fun _ => True) := by
  induction columns generalizing scope with
  | nil => exact ScopeM.ends_pure .nil
  | cons first rest ih =>
      have hfirst : (insertColumn handle record id first).Ends scope
          (fun written _ => written.1 = first.name ∧ (first = column → written.2 = stored))
          (fun _ => True) := by
        by_cases hsame : first = column
        · subst hsame
          refine (insertColumn_leaves hdata hmarked hvalue hbind scope handle id).mono ?_ fun _ _ => trivial
          rintro _ _ rfl
          exact ⟨rfl, fun _ => rfl⟩
        · exact (insertColumn_written env scope handle record id first).mono
            (fun _ _ hwritten => ⟨hwritten.2.1, fun heq => absurd heq hsame⟩) fun _ _ => trivial
      unfold insertColumns
      refine ScopeM.ends_bind hfirst ?_
      intro written middle hwritten
      refine ScopeM.ends_bind (ih middle) ?_
      intro others last hothers
      exact ScopeM.ends_pure (.cons hwritten hothers)

/-- A column that is not marked keeps what is staged in its row. -/
theorem updateColumn_shows (hdata : column.primaryKey = false) (h : scope.Leaves entry column stored)
    {existing : List (String × Value)} {written : String × Value}
    (hexisting : entry.record.isChanged column.name = false → storedColumn existing column.name = stored)
    (hwritten : updateColumn entry.record id existing column = .ok written) : written.2 = stored := by
  unfold updateColumn at hwritten
  simp only [hdata, Bool.false_eq_true, if_false] at hwritten
  by_cases hmarked : entry.record.isChanged column.name = true
  · rw [if_pos hmarked] at hwritten
    obtain ⟨value, hvalue, hwritten⟩ := bind_eq_ok.1 hwritten
    obtain ⟨bound, hbound, hwritten⟩ := bind_eq_ok.1 hwritten
    cases hwritten
    cases h with
    | marked other _ hother hbind =>
        obtain rfl := Option.some.inj ((Record.get_eq_ok.1 hvalue).symm.trans hother)
        exact Except.ok.inj (hbound.symm.trans hbind)
    | staged _ _ _ _ hunmarked => simp [hmarked] at hunmarked
  · rw [if_neg hmarked] at hwritten
    cases hwritten
    exact hexisting (Bool.eq_false_iff.2 hmarked)

section

variable {find? : String → Option Model} (hcompiled : entry.record.model.Compiled find?)
  (hcolumn : column ∈ entry.record.model.columns) (hdata : column.primaryKey = false)
  (h : scope.Leaves entry column stored) (hentry : scope.entries[handle]? = some entry)

include hcompiled hcolumn hdata h hentry

theorem insertImage_shows (env : Environment) (hstate : entry.state = .pending) :
    (insertImage handle).Ends scope (fun image _ => image.Shows column stored) (fun _ => True) := by
  obtain ⟨value, hmarked, hvalue, hbind⟩ : ∃ value, entry.record.isChanged column.name = true ∧
      entry.record.values.find? column.name = some value ∧
      column.bind entry.record.model.tableName value = .ok stored := by
    cases h with
    | marked value hmarked hvalue hbind => exact ⟨value, hmarked, hvalue, hbind⟩
    | staged _ _ _ hpersistent => cases hstate.symm.trans hpersistent
  unfold insertImage
  refine ScopeM.ends_record_bind_of_some hentry (ScopeM.ends_lift_bind ?_ trivial)
  intro id _
  refine ScopeM.ends_bind (insertColumns_leaves env hdata hmarked hvalue hbind scope handle id _) ?_
  intro columns written hcolumns
  refine ScopeM.ends_lift_bind ?_ trivial
  intro data _
  refine ScopeM.ends_bind (ScopeM.ends_trivial now written) ?_
  intro time last _
  refine ScopeM.ends_lift_bind ?_ trivial
  intro number _
  refine ScopeM.ends_pure ⟨_, columns, rfl, ?_⟩
  exact storedColumn_eq_of_forall₂ hcompiled.columns_nodup hcolumn hcolumns

theorem updateImage_shows (env : Environment) :
    (updateImage env handle).Ends scope (fun image _ => image.Shows column stored) (fun _ => True) := by
  unfold updateImage
  refine ScopeM.ends_record_bind_of_some hentry (ScopeM.ends_lift_bind ?_ trivial)
  intro id hid
  refine ScopeM.ends_lift_bind ?_ trivial
  intro number hnumber
  obtain ⟨-, rfl⟩ := rowIdOf_eq_ok.1 hnumber
  refine ScopeM.ends_bind ((lookUpRow_cases scope env _ _).mono (fun _ _ hdone => hdone)
    fun _ _ => trivial) ?_
  rintro existing middle ⟨-, hrow⟩
  refine ScopeM.ends_lift_bind ?_ trivial
  intro columns hcolumns
  have hexisting : entry.record.isChanged column.name = false →
      storedColumn columns column.name = stored := by
    intro hunmarked
    cases h with
    | marked _ hmarked => cases hunmarked.symm.trans hmarked
    | staged key row others _ _ hkey hfind hholds hstored =>
        obtain rfl := Option.some.inj (hkey.symm.trans (requireId_eq_ok.1 hid))
        obtain rfl := Except.ok.inj (hrow.symm.trans (visibleRow_of_staged hfind))
        obtain rfl := hholds.of_decodeRow (ofData_eq_ok.1 hcolumns)
        exact hstored
  refine ScopeM.ends_lift_bind ?_ trivial
  intro written hwritten
  refine ScopeM.ends_lift_bind ?_ trivial
  intro data _
  refine ScopeM.ends_bind (ScopeM.ends_trivial now middle) ?_
  intro time last _
  refine ScopeM.ends_pure ⟨_, written, rfl, ?_⟩
  have hall := (mapM_eq_ok.1 hwritten).imp fun (other : Column) (pair : String × Value)
      (hpair : updateColumn entry.record id columns other = .ok pair) =>
    (⟨(updateColumn_written hpair).1, fun heq : other = column =>
      updateColumn_shows hdata h hexisting (heq ▸ hpair)⟩ :
      pair.1 = other.name ∧ (other = column → pair.2 = stored))
  exact storedColumn_eq_of_forall₂ hcompiled.columns_nodup hcolumn hall

/-- The image of a record that is to stay shows what is left; it is missing only when nothing is marked. -/
theorem image?_shows (env : Environment) (hlive : entry.state.isLive = true) :
    (image? env handle).Ends scope
      (fun image _ => (∃ made, image = some made ∧ made.Shows column stored) ∨
        image = none ∧ entry.state = .persistent ∧ entry.record.isDirty = false)
      (fun _ => True) := by
  unfold image?
  refine ScopeM.ends_entry_bind_of_some hentry ?_
  cases hstate : entry.state with
  | pending =>
      refine ScopeM.ends_bind (insertImage_shows hcompiled hcolumn hdata h hentry env hstate) ?_
      intro made _ hmade
      exact ScopeM.ends_pure (Or.inl ⟨made, rfl, hmade⟩)
  | persistent =>
      by_cases hdirty : entry.record.isDirty = true
      · simp only [hdirty, if_true]
        refine ScopeM.ends_bind (updateImage_shows hcompiled hcolumn hdata h hentry env) ?_
        intro made _ hmade
        exact ScopeM.ends_pure (Or.inl ⟨made, rfl, hmade⟩)
      · simp only [hdirty]
        exact ScopeM.ends_pure (Or.inr (by simp))
  | deleted | removed => simp [hstate, Lifecycle.isLive] at hlive

end

/-! ## All images -/

/-- What holds of the image of each record holds of all images. -/
theorem imagesOf_each (kept : Scope → Prop) (made : Handle → Option RowImage → Prop)
    {handles : List Handle} (hstart : kept scope)
    (h : ∀ handle ∈ handles, ∀ scope, kept scope → (image? env handle).Ends scope
      (fun image after => kept after ∧ made handle image) (fun _ => True)) :
    (imagesOf env handles).Ends scope
      (fun images after => kept after ∧
        (∀ image ∈ images, ∃ handle ∈ handles, made handle (some image)) ∧
        ∀ handle ∈ handles, made handle none ∨ ∃ image ∈ images, made handle (some image))
      (fun _ => True) := by
  induction handles generalizing scope with
  | nil => exact ScopeM.ends_pure ⟨hstart, by simp, by simp⟩
  | cons handle rest ih =>
      unfold imagesOf
      refine ScopeM.ends_bind (h handle List.mem_cons_self scope hstart) ?_
      rintro image middle ⟨hmiddle, hmade⟩
      have hrest := ih hmiddle fun other hother => h other (List.mem_cons_of_mem _ hother)
      cases image with
      | none =>
          refine hrest.mono ?_ fun _ _ => trivial
          rintro images last ⟨hlast, hfrom, hof⟩
          refine ⟨hlast, ?_, List.forall_mem_cons.2 ⟨Or.inl hmade, hof⟩⟩
          intro image himage
          obtain ⟨place, hplace, hplaced⟩ := hfrom image himage
          exact ⟨place, List.mem_cons_of_mem _ hplace, hplaced⟩
      | some first =>
          refine ScopeM.ends_bind hrest ?_
          rintro images last ⟨hlast, hfrom, hof⟩
          refine ScopeM.ends_pure ⟨hlast, ?_, ?_⟩
          · refine List.forall_mem_cons.2 ⟨⟨handle, List.mem_cons_self, hmade⟩, ?_⟩
            intro image himage
            obtain ⟨place, hplace, hplaced⟩ := hfrom image himage
            exact ⟨place, List.mem_cons_of_mem _ hplace, hplaced⟩
          · refine List.forall_mem_cons.2 ⟨Or.inr ⟨first, List.mem_cons_self, hmade⟩, ?_⟩
            intro place hplace
            refine (hof place hplace).imp_right ?_
            rintro ⟨image, himage, hplaced⟩
            exact ⟨image, List.mem_cons_of_mem _ himage, hplaced⟩

/-- An image is for the row of its record.  That of one particular record shows what is left in a column, and
is missing only when the record is stored and nothing is marked. -/
structure Rendered (scope : Scope) (handle : Handle) (entry : Entry) (column : Column) (stored : Value)
    (place : Handle) (image : Option RowImage) : Prop where
  row : ∀ found, image = some found → ∃ s id, scope.standing place = some s ∧ found.model = s.model ∧
    s.id = some id ∧ found.id = id.toUInt64
  shows : place = handle → (∃ found, image = some found ∧ found.Shows column stored) ∨
    image = none ∧ entry.state = .persistent ∧ entry.record.isDirty = false

/-- The last part of a flush: images are made, checked and staged. -/
def staging (env : Environment) : ScopeM Unit := do
  let images ← rowImages env
  ScopeM.lift ((← get).checkConstraints env images)
  modify (settle images)

/-- The last part of a flush takes no keys away and leaves the links. -/
theorem staging_keeps (env : Environment) (scope : Scope) :
    (staging env).Ends scope (fun _ after => scope.Carries after ∧ after.links = scope.links)
      (fun _ => True) := by
  unfold staging
  refine ScopeM.ends_bind ((rowImages_imaged env scope (.refl scope)).mono (fun _ _ hmade => hmade)
    fun _ _ => trivial) ?_
  intro images made hmade
  refine ScopeM.ends_get_bind (ScopeM.ends_lift_bind (fun _ _ => ScopeM.ends_modify ?_) trivial)
  exact ⟨hmade.carries.trans (carries_settle images made), hmade.links⟩

section

variable (hregistry : env.registry.Consistent) (hrooted : scope.Rooted env)
  (hentry : scope.entries[handle]? = some entry) (hlive : entry.state.isLive = true)
  (hcolumn : column ∈ entry.record.model.columns) (hdata : column.primaryKey = false)
  (h : scope.Leaves entry column stored)

include hregistry hrooted hentry hlive hcolumn hdata h

theorem image?_rendered (place : Handle) {middle : Scope} (himaged : scope.Imaged middle)
    (hsteady : scope.Steady env middle) :
    (image? env place).Ends middle
      (fun image after => (scope.Imaged after ∧ scope.Steady env after) ∧
        scope.Rendered handle entry column stored place image)
      (fun _ => True) := by
  obtain ⟨record, hrecord, hmodel, -, hchanged, hleaves⟩ := h.imaged himaged hentry
  obtain ⟨known, hcompiled⟩ := hrooted.compiled hregistry hentry
  have hcompiled' : record.model.Compiled known := by
    rw [hmodel]
    exact hcompiled
  have hshows := image?_shows hcompiled' (hmodel ▸ hcolumn) hdata hleaves hrecord env hlive
  have hdirty : record.isDirty = entry.record.isDirty := by simp [Record.isDirty, hchanged]
  have hown : (image? env place).Ends middle
      (fun image _ => place = handle → (∃ found, image = some found ∧ found.Shows column stored) ∨
        image = none ∧ entry.state = .persistent ∧ entry.record.isDirty = false) (fun _ => True) := by
    by_cases hplace : place = handle
    · subst hplace
      exact hshows.mono (fun _ _ hdone _ => hdirty ▸ hdone) fun _ _ => trivial
    · exact (ScopeM.ends_trivial _ _).mono (fun _ _ _ heq => absurd heq hplace) fun _ _ => trivial
  refine (((image?_imaged env place middle himaged).and (image?_made env middle place)).and hown).mono
    ?_ fun _ _ => trivial
  rintro image after ⟨⟨hafter, hkept, s, hs, hmade⟩, hshown⟩
  refine ⟨⟨hafter, hsteady.trans hkept⟩, ?_, hshown⟩
  rintro found rfl
  obtain ⟨hsame, id, hid, -, hnumber⟩ := hmade.some_cases
  exact ⟨s, id, (hsteady.standing place).symm.trans hs, hsame, hid, hnumber⟩

/-- All images are for the rows of their records, and the one in question shows what is left. -/
theorem imagesOf_rendered (handles : List Handle) :
    (imagesOf env handles).Ends scope
      (fun images _ =>
        (∀ image ∈ images, ∃ place, scope.Rendered handle entry column stored place (some image)) ∧
        (handle ∈ handles → scope.Rendered handle entry column stored handle none ∨
          ∃ image ∈ images, scope.Rendered handle entry column stored handle (some image)))
      (fun _ => True) := by
  have heach : (imagesOf env handles).Ends scope _ _ :=
    imagesOf_each (fun middle => scope.Imaged middle ∧ scope.Steady env middle)
      (scope.Rendered handle entry column stored) ⟨.refl scope, .refl env scope⟩
      fun place _ _ hmiddle =>
        image?_rendered hregistry hrooted hentry hlive hcolumn hdata h place hmiddle.1 hmiddle.2
  refine heach.mono ?_ fun _ _ => trivial
  rintro images _ ⟨-, hfrom, hof⟩
  refine ⟨?_, hof handle⟩
  intro image himage
  obtain ⟨place, -, hplace⟩ := hfrom image himage
  exact ⟨place, hplace⟩

/-! ## Staging -/

/-- The last part of a flush leaves in the column what the flush was to leave, now in a row that is staged. -/
theorem staging_leaves
    (hcount : ∀ model ∈ env.registry.models, model.columns.length < 4294967296)
    (hrows : scope.SoundRows env deleted) (hsole : scope.Sole handle) (hid : entry.record.id = some id) :
    (staging env).Ends scope
      (fun _ after => ∃ new, after.entries[handle]? = some new ∧
        new.record.model = entry.record.model ∧ after.Leaves new column stored)
      (fun _ => True) := by
  unfold staging rowImages
  have himages := ((imagesOf_rendered hregistry hrooted hentry hlive hcolumn hdata h scope.handles).and
    (imagesOf_made env scope scope.handles)).and (imagesOf_imaged env scope.handles scope (.refl scope))
  refine ScopeM.ends_bind (ScopeM.ends_get_bind (himages.mono (fun _ _ hdone => hdone) fun _ _ => trivial)) ?_
  rintro images made ⟨⟨⟨hfrom, hof⟩, hsteady, hmade⟩, himaged⟩
  refine ScopeM.ends_get_bind (ScopeM.ends_lift_bind (fun _ _ => ScopeM.ends_modify ?_) trivial)
  obtain ⟨record, hrecord, hmodel, hkey, -⟩ := h.imaged himaged hentry
  obtain ⟨row, columns, hrow, hholds, hstored⟩ : ∃ row columns,
      (images.foldl stageImage made.staged).find? (entry.record.model.tableName, id.toUInt64) =
        some (some row) ∧ row.Holds columns ∧ storedColumn columns column.name = stored := by
    rcases find?_foldl_stageImage images made.staged (entry.record.model.tableName, id.toUInt64) with
      ⟨image, himage, hsame, hfind⟩ | ⟨hother, hfind⟩
    · -- The image that is staged for the row is that of the record.
      obtain ⟨place, hrendered⟩ := hfrom image himage
      obtain ⟨s, other, hs, himageModel, hother, hnumber⟩ := hrendered.row image rfl
      unfold imageKey at hsame
      rw [himageModel, hnumber, Prod.mk.injEq] at hsame
      obtain rfl := hsole (standing_of_entry hentry) hs hid hother hsame.1 hsame.2
      rcases hrendered.shows rfl with ⟨found, hfound, row, columns, hcontent, hstored⟩ | ⟨hnone, -⟩
      · cases hfound
        have hmove : Move env { grounded := False, undeleted := False } scope made := .steady hsteady
        obtain ⟨hregistered, hwrote⟩ := hmade.wrote hregistry hcount (hrooted.move hmove)
          (hrows.move hregistry hcount hrooted hmove) image himage
        refine ⟨row, columns, by rw [hfind, hcontent, Option.map_some], ?_, hstored⟩
        exact (hwrote row columns hcontent).holds (hcount _ hregistered)
      · cases hnone
    · rcases hof (List.mem_range.2 (List.getElem?_eq_some_iff.1 hentry).1) with hnone | ⟨image, himage, hsome⟩
      · -- Nothing is marked, so what was staged before is left.
        rcases hnone.shows rfl with ⟨_, hfound, -⟩ | ⟨-, -, hclean⟩
        · cases hfound
        · cases h with
          | marked _ hmarked => simp [Record.isChanged_of_clean hclean] at hmarked
          | staged key row columns _ _ hkey hrow hholds hstored =>
              obtain rfl := Option.some.inj (hid.symm.trans hkey)
              exact ⟨row, columns, by rw [hfind, himaged.staged, hrow], hholds, hstored⟩
      · -- The image of the record would be one for its row.
        obtain ⟨s, other, hs, himageModel, hkey, hnumber⟩ := hsome.row image rfl
        obtain rfl := Option.some.inj ((standing_of_entry hentry).symm.trans hs)
        obtain rfl := Option.some.inj (hid.symm.trans hkey)
        exact absurd (by rw [imageKey, himageModel, hnumber]; rfl) (hother image himage)
  have hstays : ({ entry with record } : Entry).state.isLive = true := hlive
  have hsettled : (settle images made).entries[handle]? =
      some { record := record.clearChanges, state := .persistent } := by
    rw [getElem?_settle, hrecord, Option.map_some, settleEntry_of_isLive hstays]
  refine ⟨_, hsettled, hmodel, .staged id row columns rfl rfl (hkey.trans hid) ?_ hholds hstored⟩
  show (images.foldl stageImage made.staged).find? (record.model.tableName, id.toUInt64) = _
  rw [hmodel]
  exact hrow

end

/-! ## Flushing -/

/-- A flush ends as its last part does, before which every record that is to stay has got its key and every
link was filled. -/
theorem flush_of_staging (terms : Terms) (hregistry : env.registry.Consistent) (hrooted : start.Rooted env)
    (hstart : start.Orderly) {done : Unit → Scope → Prop}
    (hstaging : ∀ filled, start.Reaches env terms filled → start.Underway filled → filled.LiveKeyed →
      filled.links = ∅ →
      (∀ key target, start.links.find? key = some target → filled.LinkFilled key target) →
      (staging env).Ends filled done (fun _ => True)) :
    (flush env).Ends start done (fun _ => True) := by
  have hreaches : (assignIds env).Ends start (fun _ => start.Reaches env terms)
      (start.Reaches env terms) := assignIds_reaches hrooted start Relation.ReflTransGen.refl
  unfold flush
  refine ScopeM.ends_bind (((assignIds_liveKeyed hregistry hrooted hstart).and hreaches).mono
    (fun _ _ hdone => hdone) fun _ _ => trivial) ?_
  rintro _ numbered ⟨⟨⟨hnumbered, hlinks⟩, hkeyed⟩, hreached⟩
  refine ScopeM.ends_bind ((((resolveLinks_underway hnumbered hlinks).and
    (resolveLinks_fills hstart hnumbered hlinks hkeyed)).and ((resolveLinks_steady env numbered).and
      (resolveLinks_forgets numbered))).mono (fun _ _ hdone => hdone) fun _ _ => trivial) ?_
  rintro _ filled ⟨⟨hunderway, hfilled⟩, hsteady, hforgotten⟩
  exact hstaging filled (reaches_steady hreached hsteady) hunderway (hkeyed.of_steady hsteady) hforgotten
    hfilled

/-- A record that goes away does not come back with a flush. -/
theorem flush_of_gone (hregistry : env.registry.Consistent) (hrooted : start.Rooted env)
    (hstart : start.Orderly) (hentry : start.entries[handle]? = some entry)
    (hgone : entry.state.isLive = false) :
    (flush env).Ends start
      (fun _ after => ∃ new, after.entries[handle]? = some new ∧ new.record.model = entry.record.model ∧
        new.state.isLive = false)
      (fun _ => True) := by
  refine (flush_underway hregistry hrooted hstart).mono ?_ fun _ _ => trivial
  rintro _ _ ⟨images, made, hmade, rfl⟩
  obtain ⟨record, hrecord, hmodel, -⟩ := hmade.entries handle entry hentry
  refine ⟨settleEntry { entry with record }, by rw [getElem?_settle, hrecord, Option.map_some],
    (settleEntry_model _).trans hmodel, ?_⟩
  show entry.state.afterFlush.isLive = false
  cases hstate : entry.state <;> simp [hstate, Lifecycle.afterFlush, Lifecycle.isLive] at hgone ⊢

end Scope

end RecordStore
