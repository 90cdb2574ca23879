import RecordStore.Proofs.Scope.References

/-!
# Images of rows

A flush makes an image of every record that is to be written (`Scope.ImageOf`).  The images of new
and of changed records are made by different rules, but both write to every data column a stored
form that is explained by the history of the scope.  Making images draws from the supply and puts
defaults into new records, and changes nothing of importance.
-/

namespace RecordStore

/-! ## The supply -/

theorem DefaultValue.evaluate_supply (default : DefaultValue) (supply : Supply) :
    (default.evaluate supply).2 = { supply with drawn := (default.evaluate supply).2.drawn } ∧
      supply.drawn ≤ (default.evaluate supply).2.drawn := by
  cases default with
  | value v => exact ⟨rfl, Nat.le_refl _⟩
  | shortCode => exact ⟨rfl, Nat.le_succ _⟩
  | currentTime => exact ⟨rfl, Nat.le_succ _⟩

namespace Scope

theorem follows_supply (scope : Scope) {supply : Supply}
    (hsupply : supply = { scope.supply with drawn := supply.drawn })
    (hdrawn : scope.supply.drawn ≤ supply.drawn) : scope.Follows { scope with supply } where
  __ := Follows.refl scope
  supply := hsupply
  drawn := hdrawn

theorem now_ends (scope : Scope) (failed : Scope → Prop) :
    now.Ends scope (fun _ => scope.Follows) failed :=
  scope.follows_supply rfl (Nat.le_succ _)

theorem evaluateDefault_ends (scope : Scope) (default : DefaultValue) (failed : Scope → Prop) :
    (evaluateDefault default).Ends scope
      (fun value after => scope.Follows after ∧ value = (default.evaluate scope.supply).1)
        failed := by
  rcases default.evaluate_supply scope.supply with ⟨hsupply, hdrawn⟩
  exact ⟨scope.follows_supply hsupply hdrawn, rfl⟩

/-! ## Images -/

/-- What is written for a record. -/
inductive ImageOf (env : Environment) (history : History) (scope : Scope) (handle : Handle)
    (entry : Entry) : Option RowImage → Prop where
  | inserted (id : Int64) (row : StoredRow) (columns : List (String × Value)) :
      entry.state = .pending → entry.record.id = some id → row.Holds columns →
      entry.record.model.Fits columns →
      (∀ column, entry.record.model.DataColumn column → ∀ record,
        record.model = entry.record.model → history.Explains env scope.supply.drawn handle record id
          column (storedColumn columns column.name)) →
      ImageOf env history scope handle entry (some {
        model := entry.record.model, id := id.toUInt64, content := some (row, columns) })
  | updated (id : Int64) (row : StoredRow) (columns : List (String × Value)) :
      entry.state = .persistent → entry.record.id = some id → row.Holds columns →
      entry.record.model.Fits columns →
      (∀ column, entry.record.model.DataColumn column →
        history.Explains env scope.supply.drawn handle entry.record id column
          (storedColumn columns column.name)) →
      ImageOf env history scope handle entry (some {
        model := entry.record.model, id := id.toUInt64, content := some (row, columns) })
  | unchanged : entry.state = .persistent →
      (∀ column, entry.record.model.DataColumn column →
        entry.record.isChanged column.name = false) →
      ImageOf env history scope handle entry none
  | deleted (id : Int64) : entry.state = .deleted → entry.record.id = some id →
      ImageOf env history scope handle entry (some {
        model := entry.record.model, id := id.toUInt64, content := none })
  | removed : entry.state = .removed → ImageOf env history scope handle entry none

variable {env : Environment} {history : History} {scope after : Scope} {handle : Handle}
  {entry new : Entry}

/-- An image stays right through steps that change nothing of importance. -/
theorem ImageOf.of_follows {image : Option RowImage}
    (h : ImageOf env history scope handle entry image)
    (hfollows : scope.Follows after) (hentry : entry.Follows new) :
    ImageOf env history after handle new image := by
  have hmodel := hentry.model
  cases h with
  | inserted id row columns hstate hid hholds hfits hcolumns =>
      rw [← hmodel]
      refine .inserted id row columns (hentry.state.trans hstate) (hentry.id.trans hid) hholds
        ?_ ?_
      · rw [hmodel]
        exact hfits
      · intro column hdata record hrecord
        rw [hmodel] at hdata hrecord
        exact (hcolumns column hdata record hrecord).transfer rfl rfl hfollows.drawn
  | updated id row columns hstate hid hholds hfits hcolumns =>
      rw [← hmodel]
      refine .updated id row columns (hentry.state.trans hstate) (hentry.id.trans hid) hholds ?_ ?_
      · rw [hmodel]
        exact hfits
      · intro column hdata
        rw [hmodel] at hdata
        have hkept : entry.state ≠ .pending := by
          rw [hstate]
          decide
        exact (hcolumns column hdata).transfer hmodel (hentry.values column hdata (Or.inr hkept))
          hfollows.drawn
  | unchanged hstate hcolumns =>
      refine .unchanged (hentry.state.trans hstate) ?_
      intro column hdata
      rw [hmodel] at hdata
      rw [hentry.isChanged column hdata]
      exact hcolumns column hdata
  | deleted id hstate hid =>
      rw [← hmodel]
      exact .deleted id (hentry.state.trans hstate) (hentry.id.trans hid)
  | removed hstate => exact .removed (hentry.state.trans hstate)

theorem requireId_eq_ok {record : Record} {id : Int64} :
    record.requireId = .ok id ↔ record.id = some id := by
  unfold Record.requireId
  cases record.id with
  | none => simp
  | some key => simp

/-! ## New rows -/

/-- What is written to a column of a new row. -/
def NewColumn (env : Environment) (history : History) (scope : Scope) (handle : Handle)
    (model : Model) (id : Int64) (column : Column) (stored : Value) : Prop :=
  column.Admits model.tableName stored ∧
    (model.DataColumn column → ∀ record : Record, record.model = model →
      history.Explains env scope.supply.drawn handle record id column stored)

theorem NewColumn.of_follows {model : Model} {id : Int64} {column : Column} {stored : Value}
    (h : NewColumn env history scope handle model id column stored)
    (hfollows : scope.Follows after) :
    NewColumn env history after handle model id column stored := by
  refine ⟨h.1, ?_⟩
  intro hdata record hmodel
  exact (h.2 hdata record hmodel).transfer rfl rfl hfollows.drawn

/-- A default that is put into a column without a mark changes nothing of importance. -/
theorem follows_putDefault (hregistry : env.registry.Consistent) (h : scope.Sound env history)
    (hentry : scope.entries[handle]? = some entry) (hpending : entry.state = .pending)
    {column : Column} (hmem : column ∈ entry.record.model.columns)
    (hchanged : entry.record.model.DataColumn column → entry.record.isChanged column.name = false)
    (value : Value) :
    scope.Follows (scope.modifyRecord handle fun record => record.putValue column.name value) := by
  rcases hregistry.mem_compiled (h.entries handle entry hentry).registered with ⟨_, -, hcompiled⟩
  refine follows_modifyRecord ?_
  intro other hother
  rw [hentry] at hother
  cases hother
  refine ⟨rfl, rfl, rfl, fun _ _ => rfl, ?_⟩
  intro data hdata hkept
  have hne : data.name ≠ column.name := by
    intro hname
    have hsame : data = column :=
      List.inj_on_of_nodup_map hcompiled.columns_nodup hdata.mem hmem hname
    subst hsame
    rw [hchanged hdata, hpending] at hkept
    rcases hkept with hkept | hkept
    · cases hkept
    · exact hkept rfl
  show (entry.record.putValue column.name value).values.find? data.name = _
  rw [Record.find?_putValue, if_neg hne]

/-- The stored form of a marked column is that of the last value assigned to it. -/
theorem EntrySound.newColumn_of_marked (h : scope.EntrySound env history handle entry)
    (hlive : entry.state.isLive = true) {column : Column}
    (hchanged : entry.record.isChanged column.name = true) {value : Value}
    (hvalue : entry.record.get column.name = .ok value) {stored : Value}
    (hstored : column.bind entry.record.model.tableName value = .ok stored) (id : Int64) :
    NewColumn env history after handle entry.record.model id column stored := by
  refine ⟨Or.inr ⟨_, hstored⟩, ?_⟩
  intro hdata record hmodel
  rcases h.marked hlive column hdata hchanged with ⟨v, hlast, hfound⟩
  unfold Record.get at hvalue
  rw [hfound] at hvalue
  cases hvalue
  rw [← hmodel] at hstored
  exact .assigned value hlast hstored

/-- A column of a new row without a mark holds what it starts with. -/
theorem EntrySound.newColumn_of_initial (h : scope.EntrySound env history handle entry)
    (hpending : entry.state = .pending) {id : Int64} (hid : entry.record.id = some id)
    {column : Column} (hchanged : entry.record.isChanged column.name = false) {stored : Value}
    (hstored : column.Admits entry.record.model.tableName stored)
    (hholds : column.HoldsInitial history.clock entry.record.model.tableName
      (fun n => history.born handle n ∧ n ≤ after.supply.drawn) stored) :
    NewColumn env history after handle entry.record.model id column stored := by
  refine ⟨hstored, ?_⟩
  intro hdata record hmodel
  refine .initial (h.unassigned hpending column hdata hchanged) ?_ ?_
  · rw [hmodel]
    intro sequence value hseq hvalue
    exact h.numbered_here id sequence value hpending hid hseq hvalue
  · rw [hmodel]
    exact hholds

theorem insertColumn_ends (hregistry : env.registry.Consistent) (h : scope.SoundReady env history)
    (hentry : scope.entries[handle]? = some entry) (hpending : entry.state = .pending) {id : Int64}
    (hid : entry.record.id = some id) (hfollows : scope.Follows after) {column : Column}
    (hmem : column ∈ entry.record.model.columns) :
    (insertColumn handle entry.record id column).Ends after
      (fun written last => after.Follows last ∧ written.1 = column.name ∧
        NewColumn env history last handle entry.record.model id column written.2)
      after.Follows := by
  have hsound := h.1.entries handle entry hentry
  unfold insertColumn
  by_cases hprimary : column.primaryKey = true
  · rw [if_pos hprimary]
    rcases hregistry.mem_compiled hsound.registered with ⟨_, -, hcompiled⟩
    refine ScopeM.ends_pure ⟨.refl after, rfl,
      Column.admits_key (hcompiled.of_primaryKey hmem hprimary).1 _ id, ?_⟩
    intro hdata
    rw [hdata.not_key] at hprimary
    cases hprimary
  · rw [if_neg hprimary]
    by_cases hchanged : entry.record.isChanged column.name = true
    · rw [if_pos hchanged]
      refine ScopeM.ends_lift_bind ?_ (.refl after)
      intro value hvalue
      refine ScopeM.ends_lift_bind ?_ (.refl after)
      intro stored hstored
      have hlive : entry.state.isLive = true := by
        rw [hpending]
        rfl
      exact ScopeM.ends_pure ⟨.refl after, rfl,
        hsound.newColumn_of_marked hlive hchanged hvalue hstored id⟩
    · rw [if_neg hchanged]
      rw [Bool.not_eq_true] at hchanged
      cases hdefault : column.default with
      | some default =>
          refine ScopeM.ends_bind (evaluateDefault_ends after default after.Follows) ?_
          rintro value drawn ⟨hdrawn, rfl⟩
          refine ScopeM.ends_lift_bind ?_ hdrawn
          intro stored hstored
          rcases (hfollows.trans hdrawn).forth hentry with ⟨current, hcurrent, hsame⟩
          have hcolumn : column ∈ current.record.model.columns := by
            rw [hsame.model]
            exact hmem
          have hunmarked : current.record.model.DataColumn column →
              current.record.isChanged column.name = false := by
            intro hdata
            rw [hsame.model] at hdata
            rw [hsame.isChanged column hdata]
            exact hchanged
          -- The default reaches the record without a mark, as a value of the library itself.
          have hput := follows_putDefault hregistry
            (h.1.of_follows (hfollows.trans hdrawn)) hcurrent
            (hsame.state.trans hpending) hcolumn hunmarked (default.evaluate after.supply).1
          refine ScopeM.ends_modify_bind (ScopeM.ends_pure ⟨hdrawn.trans hput, rfl,
            hsound.newColumn_of_initial hpending hid hchanged (Or.inr ⟨_, hstored⟩) ?_⟩)
          unfold Column.HoldsInitial
          rw [hdefault]
          -- The default was evaluated after the record became new, which makes the moment one
          -- at which the record may be born.
          refine ⟨after.supply.drawn, ⟨?_, hdrawn.drawn⟩, ?_⟩
          · exact h.2 handle entry hentry hpending _ hfollows.drawn
          · rw [← (h.1.of_follows hfollows).supply]
            exact hstored
      | none =>
          by_cases hnullable : column.nullable = true
          · rw [if_pos hnullable]
            refine ScopeM.ends_pure ⟨.refl after, rfl,
              hsound.newColumn_of_initial hpending hid hchanged (Or.inl rfl) ?_⟩
            unfold Column.HoldsInitial
            rw [hdefault]
          · rw [if_neg hnullable]
            refine ScopeM.ends_lift_bind ?_ (.refl after)
            intro stored hstored
            rw [Bool.not_eq_true] at hnullable
            exact absurd hstored (Column.bind_null_of_not_nullable hnullable _ stored)

/-- The columns of a new row stand beside the columns of the model. -/
theorem insertColumns_ends (hregistry : env.registry.Consistent) (h : scope.SoundReady env history)
    (hentry : scope.entries[handle]? = some entry) (hpending : entry.state = .pending) {id : Int64}
    (hid : entry.record.id = some id) {columns : List Column}
    (hmem : ∀ column ∈ columns, column ∈ entry.record.model.columns)
    (hfollows : scope.Follows after) :
    (insertColumns handle entry.record id columns).Ends after
      (fun written last => after.Follows last ∧
        List.Forall₂ (fun (column : Column) (pair : String × Value) => pair.1 = column.name ∧
          NewColumn env history last handle entry.record.model id column pair.2) columns written)
      after.Follows := by
  induction columns generalizing after with
  | nil => exact ScopeM.ends_pure ⟨.refl after, .nil⟩
  | cons column rest ih =>
      unfold insertColumns
      refine ScopeM.ends_bind (insertColumn_ends hregistry h hentry hpending hid hfollows
        (hmem column List.mem_cons_self)) ?_
      rintro first middle ⟨hfirst, hname, hnew⟩
      refine ScopeM.ends_bind ((ih (fun other hother => hmem other (List.mem_cons_of_mem _ hother))
        (hfollows.trans hfirst)).mono (fun _ _ hrest => hrest)
          fun _ hfailed => hfirst.trans hfailed) ?_
      rintro others last ⟨hothers, hall⟩
      exact ScopeM.ends_pure ⟨hfirst.trans hothers, .cons ⟨hname, hnew.of_follows hothers⟩ hall⟩

theorem insertImage_ends (hregistry : env.registry.Consistent)
    (hcount : ∀ model ∈ env.registry.models, model.columns.length < 4294967296)
    (h : scope.SoundReady env history) (hentry : scope.entries[handle]? = some entry)
    (hpending : entry.state = .pending) :
    (insertImage handle).Ends scope
      (fun image after => scope.Follows after ∧ ImageOf env history after handle entry (some image))
      scope.Follows := by
  have hmodel := (h.1.entries handle entry hentry).registered
  rcases hregistry.mem_compiled hmodel with ⟨_, -, hcompiled⟩
  unfold insertImage
  refine ScopeM.ends_record_bind_of_some hentry ?_
  refine ScopeM.ends_lift_bind ?_ (.refl scope)
  intro id hrequired
  have hid := requireId_eq_ok.1 hrequired
  refine ScopeM.ends_bind (insertColumns_ends hregistry h hentry hpending hid
    (fun _ hcolumn => hcolumn) (.refl scope)) ?_
  rintro columns written ⟨hwritten, hcolumns⟩
  refine ScopeM.ends_lift_bind ?_ hwritten
  intro data hdata
  refine ScopeM.ends_bind (now_ends written scope.Follows) ?_
  intro time last hlast
  refine ScopeM.ends_lift_bind ?_ (hwritten.trans hlast)
  intro number hnumber
  rcases rowIdOf_eq_ok.1 hnumber with ⟨-, rfl⟩
  have hfits : entry.record.model.Fits columns :=
    hcolumns.imp fun _ _ hcolumn => ⟨hcolumn.1, hcolumn.2.1⟩
  refine ScopeM.ends_pure ⟨hwritten.trans hlast, .inserted id (.new data time) columns hpending hid
    (hfits.holds (hcount _ hmodel) hdata) hfits ?_⟩
  intro column hdataColumn record hrecord
  have hnew : NewColumn env history written handle entry.record.model id column
      (storedColumn columns column.name) :=
    storedColumn_of_forall₂ hcompiled.columns_nodup hcolumns hdataColumn.mem
  exact (hnew.of_follows hlast).2 hdataColumn record hrecord

/-! ## Changed rows -/

theorem lookUpRow_ends (scope : Scope) (env : Environment) (table : String) (id : UInt64) :
    (lookUpRow env table id).Ends scope
      (fun row after => scope.Follows after ∧ scope.visibleRow env table id = .ok row)
      scope.Follows := by
  unfold lookUpRow
  refine ScopeM.ends_get_bind ?_
  by_cases hstaged : (scope.staged.find? (table, id)).isSome = true
  · rw [if_pos hstaged]
    exact ScopeM.ends_lift (fun row hrow => ⟨.refl scope, hrow⟩) (.refl scope)
  · rw [if_neg hstaged]
    exact ScopeM.ends_consult (fun row hrow => ⟨follows_consulted scope true, hrow⟩)
      (follows_consulted scope true)

/-- What is written to a column of a row that is there: the value assigned last where the column is
marked, and what was there where it is not. -/
theorem Sound.updateColumn (hregistry : env.registry.Consistent) (h : scope.Sound env history)
    (hentry : scope.entries[handle]? = some entry) (hstate : entry.state = .persistent) {id : Int64}
    (hid : entry.record.id = some id) {row : StoredRow}
    (hrow : scope.visibleRow env entry.record.model.tableName id.toUInt64 = .ok (some row))
    {existing : List (String × Value)} (hholds : row.Holds existing)
    (hfits : entry.record.model.Fits existing) {column : Column}
    (hmem : column ∈ entry.record.model.columns) {written : String × Value}
    (hwritten : Scope.updateColumn entry.record id existing column = .ok written) :
    written.1 = column.name ∧ column.Admits entry.record.model.tableName written.2 ∧
      (entry.record.model.DataColumn column →
        history.Explains env scope.supply.drawn handle entry.record id column written.2) := by
  have hsound := h.entries handle entry hentry
  rcases hregistry.mem_compiled hsound.registered with ⟨_, -, hcompiled⟩
  unfold Scope.updateColumn at hwritten
  by_cases hprimary : column.primaryKey = true
  · rw [if_pos hprimary] at hwritten
    cases hwritten
    refine ⟨rfl, Column.admits_key (hcompiled.of_primaryKey hmem hprimary).1 _ id, ?_⟩
    intro hdata
    rw [hdata.not_key] at hprimary
    cases hprimary
  · rw [if_neg hprimary] at hwritten
    by_cases hchanged : entry.record.isChanged column.name = true
    · rw [if_pos hchanged] at hwritten
      rcases bind_eq_ok.1 hwritten with ⟨value, hvalue, hwritten⟩
      rcases bind_eq_ok.1 hwritten with ⟨stored, hstored, hwritten⟩
      cases hwritten
      have hlive : entry.state.isLive = true := by
        rw [hstate]
        rfl
      have hnew : NewColumn env history scope handle entry.record.model id column stored :=
        hsound.newColumn_of_marked hlive hchanged hvalue hstored id
      exact ⟨rfl, hnew.1, fun hdata => hnew.2 hdata entry.record rfl⟩
    · rw [if_neg hchanged] at hwritten
      cases hwritten
      refine ⟨rfl, hfits.admits_column hcompiled.columns_nodup hmem, ?_⟩
      intro hdata
      -- What is not marked stays as the row has it, which was explained before.
      rw [Bool.not_eq_true] at hchanged
      exact hsound.explained hstate id row existing hid hrow hholds column hdata hchanged

theorem updateImage_ends (hregistry : env.registry.Consistent)
    (hcount : ∀ model ∈ env.registry.models, model.columns.length < 4294967296)
    (h : scope.Sound env history) (hentry : scope.entries[handle]? = some entry)
    (hstate : entry.state = .persistent) :
    (updateImage env handle).Ends scope
      (fun image after => scope.Follows after ∧ ImageOf env history after handle entry (some image))
      scope.Follows := by
  have hsound := h.entries handle entry hentry
  have hmodel := hsound.registered
  rcases hregistry.mem_compiled hmodel with ⟨_, -, hcompiled⟩
  unfold updateImage
  refine ScopeM.ends_record_bind_of_some hentry ?_
  refine ScopeM.ends_lift_bind ?_ (.refl scope)
  intro id hrequired
  have hid := requireId_eq_ok.1 hrequired
  refine ScopeM.ends_lift_bind ?_ (.refl scope)
  intro number hnumber
  rcases rowIdOf_eq_ok.1 hnumber with ⟨-, rfl⟩
  -- The row of a stored record is visible, and its columns are those of the model.
  rcases hsound.present (Or.inl hstate) with ⟨key, row, hkey, hvisible⟩
  rw [hid] at hkey
  cases hkey
  rcases h.rows_fit _ hmodel id.toUInt64 row hvisible with ⟨existing, hholds, hfits⟩
  refine ScopeM.ends_bind (lookUpRow_ends scope env _ _) ?_
  rintro looked middle ⟨hmiddle, hlooked⟩
  rw [hvisible] at hlooked
  cases hlooked
  refine ScopeM.ends_lift_bind ?_ hmiddle
  intro stored hstored
  obtain rfl := hholds.of_decodeRow (ofData_eq_ok.1 hstored)
  refine ScopeM.ends_lift_bind ?_ hmiddle
  intro columns hcolumns
  -- Column by column, what is written is explained by the history.
  have hall : List.Forall₂ (fun (column : Column) (pair : String × Value) => pair.1 = column.name ∧
      column.Admits entry.record.model.tableName pair.2 ∧ (entry.record.model.DataColumn column →
        history.Explains env scope.supply.drawn handle entry.record id column pair.2))
      entry.record.model.columns columns := by
    have hwritten := (List.forall₂_and_left _ _).2 ⟨fun _ hmem => hmem, mapM_eq_ok.1 hcolumns⟩
    refine hwritten.imp ?_
    rintro column pair ⟨hmem, hpair⟩
    exact h.updateColumn hregistry hentry hstate hid hvisible hholds hfits hmem hpair
  refine ScopeM.ends_lift_bind ?_ hmiddle
  intro data hdata
  refine ScopeM.ends_bind (now_ends middle scope.Follows) ?_
  intro time last hlast
  have hnewFits : entry.record.model.Fits columns :=
    hall.imp fun _ _ hcolumn => ⟨hcolumn.1, hcolumn.2.1⟩
  have hfollows := hmiddle.trans hlast
  refine ScopeM.ends_pure ⟨hfollows, .updated id (row.updated data time) columns hstate hid
    (hnewFits.holds (hcount _ hmodel) hdata) hnewFits ?_⟩
  intro column hdataColumn
  -- Columns have different names, so what is found under a name is what stands beside the column.
  have hstored : column.Admits entry.record.model.tableName (storedColumn columns column.name) ∧
      (entry.record.model.DataColumn column → history.Explains env scope.supply.drawn handle
        entry.record id column (storedColumn columns column.name)) :=
    @storedColumn_of_forall₂ (fun column stored => column.Admits entry.record.model.tableName stored ∧
      (entry.record.model.DataColumn column → history.Explains env scope.supply.drawn handle
        entry.record id column stored)) _ _ hcompiled.columns_nodup hall column hdataColumn.mem
  exact (hstored.2 hdataColumn).transfer rfl rfl hfollows.drawn

theorem deleteImage_ends (hentry : scope.entries[handle]? = some entry)
    (hstate : entry.state = .deleted) :
    (deleteImage handle).Ends scope
      (fun image after => scope.Follows after ∧ ImageOf env history after handle entry (some image))
      scope.Follows := by
  unfold deleteImage
  refine ScopeM.ends_record_bind_of_some hentry ?_
  refine ScopeM.ends_lift_bind ?_ (.refl scope)
  intro id hrequired
  refine ScopeM.ends_lift_bind ?_ (.refl scope)
  intro number hnumber
  rcases rowIdOf_eq_ok.1 hnumber with ⟨-, rfl⟩
  exact ScopeM.ends_pure ⟨.refl scope, .deleted id hstate (requireId_eq_ok.1 hrequired)⟩

/-! ## All images -/

/-- Each record has the image that its state asks for. -/
theorem image?_ends (hregistry : env.registry.Consistent)
    (hcount : ∀ model ∈ env.registry.models, model.columns.length < 4294967296)
    (h : scope.SoundReady env history) (handle : Handle) :
    (image? env handle).Ends scope
      (fun image after => scope.Follows after ∧ ∀ entry, scope.entries[handle]? = some entry →
        ImageOf env history after handle entry image) scope.Follows := by
  unfold image?
  refine ScopeM.ends_entry_bind ?_ (.refl scope)
  intro entry hentry
  have hone : ∀ image last, ImageOf env history last handle entry image →
      ∀ other, scope.entries[handle]? = some other →
        ImageOf env history last handle other image := by
    intro image last himage other hother
    rw [hentry] at hother
    cases hother
    exact himage
  cases hstate : entry.state with
  | pending =>
      refine ScopeM.ends_bind (insertImage_ends hregistry hcount h hentry hstate) ?_
      rintro image after ⟨hfollows, himage⟩
      exact ScopeM.ends_pure ⟨hfollows, hone _ _ himage⟩
  | persistent =>
      by_cases hdirty : entry.record.isDirty = true
      · simp only [hdirty, if_true]
        refine ScopeM.ends_bind (updateImage_ends hregistry hcount h.1 hentry hstate) ?_
        rintro image after ⟨hfollows, himage⟩
        exact ScopeM.ends_pure ⟨hfollows, hone _ _ himage⟩
      · simp only [hdirty]
        refine ScopeM.ends_pure ⟨.refl scope, hone _ _ (.unchanged hstate ?_)⟩
        intro column _
        have hempty : entry.record.changed.isEmpty = true := by
          simpa [Record.isDirty] using hdirty
        exact SortedMap.contains_eq_false_iff.2
          (SortedMap.find?_eq_none_of_isEmpty hempty column.name)
  | deleted =>
      refine ScopeM.ends_bind (@deleteImage_ends env history scope handle entry hentry hstate) ?_
      rintro image after ⟨hfollows, himage⟩
      exact ScopeM.ends_pure ⟨hfollows, hone _ _ himage⟩
  | removed => exact ScopeM.ends_pure ⟨.refl scope, hone _ _ (.removed hstate)⟩

/-- The images of records in order: one for each record that has to be written. -/
def ImagesOf (env : Environment) (history : History) (scope : Scope) (handles : List Handle)
    (images : List RowImage) : Prop :=
  ∃ parts : List (Option RowImage), images = parts.filterMap id ∧
    List.Forall₂ (fun handle image => ∀ entry, scope.entries[handle]? = some entry →
      ImageOf env history scope handle entry image) handles parts

theorem imagesOf_ends (hregistry : env.registry.Consistent)
    (hcount : ∀ model ∈ env.registry.models, model.columns.length < 4294967296)
    (h : scope.SoundReady env history) (handles : List Handle) :
    (imagesOf env handles).Ends scope
      (fun images after => scope.Follows after ∧ ImagesOf env history after handles images)
      scope.Follows := by
  induction handles generalizing scope with
  | nil => exact ScopeM.ends_pure ⟨.refl scope, [], rfl, .nil⟩
  | cons handle rest ih =>
      unfold imagesOf
      refine ScopeM.ends_bind (image?_ends hregistry hcount h handle) ?_
      rintro image middle ⟨hmiddle, himage⟩
      have hrest := ih (h.of_follows hmiddle)
      have himages : ∀ images last, middle.Follows last → ImagesOf env history last rest images →
          ImagesOf env history last (handle :: rest) ((image :: []).filterMap id ++ images) := by
        rintro images last hlast ⟨parts, rfl, hparts⟩
        refine ⟨image :: parts, ?_, .cons ?_ hparts⟩
        · rw [← List.filterMap_append, List.singleton_append]
        · intro entry hentry
          rcases (hmiddle.trans hlast).back hentry with ⟨old, hold, hsame⟩
          exact (himage old hold).of_follows hlast hsame
      cases image with
      | some image =>
          refine ScopeM.ends_bind (hrest.mono (fun _ _ hdone => hdone)
            fun _ hfailed => hmiddle.trans hfailed) ?_
          rintro images last ⟨hlast, hall⟩
          exact ScopeM.ends_pure ⟨hmiddle.trans hlast, himages images last hlast hall⟩
      | none =>
          refine hrest.mono ?_ fun _ hfailed => hmiddle.trans hfailed
          rintro images last ⟨hlast, hall⟩
          exact ⟨hmiddle.trans hlast, himages images last hlast hall⟩

end Scope

end RecordStore
