import RecordStore.Proofs.Scope.Departing
import RecordStore.Proofs.Scope.Referring

/-!
# Marked columns until they are staged

A marked column of a record holds a value that the next flush is going to write.  A flush succeeds only if
the value can be bound, and then it is in the row that is staged (`Scope.flush_bearing`); a flush that fails
leaves the mark and the value.  So up to the first flush that succeeds the column is marked, and afterwards
its row holds the bound value (`Scope.Bears`), as long as the record is to stay, has its row to itself, and
has no link in the column.

The row of a record that is to stay is there, or is going to be there when the record is new
(`Scope.present_reaches`).
-/

namespace RecordStore

/-- A column of a record holds a value with a stored form. -/
def Record.Binds (record : Record) (column : Column) (value stored : Value) : Prop :=
  record.values.find? column.name = some value ∧ column.bind record.model.tableName value = .ok stored

namespace Scope

variable {env : Environment} {terms : Terms} {deleted : List (String × UInt64)}
  {start scope before after : Scope} {handle : Handle} {entry : Entry} {record : Record} {column : Column}
  {held : Option Value} {id : Int64}

/-! ## Binding what is marked -/

theorem insertColumn_binds (hdata : column.primaryKey = false)
    (hmarked : record.isChanged column.name = true) (scope : Scope) (handle : Handle) (id : Int64) :
    (insertColumn handle record id column).Ends scope
      (fun _ _ => ∃ value stored, record.Binds column value stored) (fun _ => True) := by
  unfold insertColumn
  simp only [hdata, hmarked, Bool.false_eq_true, if_false, if_true]
  refine ScopeM.ends_lift_bind ?_ trivial
  intro value hvalue
  refine ScopeM.ends_lift_bind ?_ trivial
  intro stored hstored
  exact ScopeM.ends_pure ⟨value, stored, Record.get_eq_ok.1 hvalue, hstored⟩

theorem insertColumns_binds (hdata : column.primaryKey = false)
    (hmarked : record.isChanged column.name = true) (scope : Scope) (handle : Handle) (id : Int64)
    {columns : List Column} (hcolumn : column ∈ columns) :
    (insertColumns handle record id columns).Ends scope
      (fun _ _ => ∃ value stored, record.Binds column value stored) (fun _ => True) := by
  induction columns generalizing scope with
  | nil => cases hcolumn
  | cons first rest ih =>
      unfold insertColumns
      rcases List.mem_cons.1 hcolumn with rfl | hrest
      · refine ScopeM.ends_bind (insertColumn_binds hdata hmarked scope handle id) ?_
        intro written middle hbinds
        refine ScopeM.ends_bind (ScopeM.ends_trivial _ middle) ?_
        intro others last _
        exact ScopeM.ends_pure hbinds
      · refine ScopeM.ends_bind (ScopeM.ends_trivial _ scope) ?_
        intro written middle _
        refine ScopeM.ends_bind (ih middle hrest) ?_
        intro others last hbinds
        exact ScopeM.ends_pure hbinds

theorem updateColumn_binds (hdata : column.primaryKey = false)
    (hmarked : record.isChanged column.name = true) {existing : List (String × Value)}
    {written : String × Value} (hwritten : updateColumn record id existing column = .ok written) :
    ∃ value stored, record.Binds column value stored := by
  unfold updateColumn at hwritten
  simp only [hdata, hmarked, Bool.false_eq_true, if_false, if_true] at hwritten
  obtain ⟨value, hvalue, hwritten⟩ := bind_eq_ok.1 hwritten
  obtain ⟨stored, hstored, -⟩ := bind_eq_ok.1 hwritten
  exact ⟨value, stored, Record.get_eq_ok.1 hvalue, hstored⟩

section

variable (hlive : entry.state.isLive = true) (hcolumn : column ∈ entry.record.model.columns)
  (hdata : column.primaryKey = false) (hmarked : entry.record.isChanged column.name = true)

include hlive hcolumn hdata hmarked

/-- A record that is to stay has an image only if what is marked can be bound, and it needs one. -/
theorem image?_binds (env : Environment) (hentry : scope.entries[handle]? = some entry) :
    (image? env handle).Ends scope (fun _ _ => ∃ value stored, entry.record.Binds column value stored)
      (fun _ => True) := by
  unfold image?
  refine ScopeM.ends_entry_bind_of_some hentry ?_
  cases hstate : entry.state with
  | pending =>
      refine ScopeM.ends_bind ?_ fun _ _ hbinds => ScopeM.ends_pure hbinds
      unfold insertImage
      refine ScopeM.ends_record_bind_of_some hentry (ScopeM.ends_lift_bind ?_ trivial)
      intro id _
      refine ScopeM.ends_bind (insertColumns_binds hdata hmarked scope handle id hcolumn) ?_
      intro columns written hbinds
      refine ScopeM.ends_bind (ScopeM.ends_trivial _ written) fun _ middle _ => ?_
      refine ScopeM.ends_bind (ScopeM.ends_trivial _ middle) fun _ last _ => ?_
      exact ScopeM.ends_lift_bind (fun _ _ => ScopeM.ends_pure hbinds) trivial
  | persistent =>
      -- With a marked column the record is not skipped.
      have hdirty : entry.record.isDirty = true := by
        by_contra hclean
        simp [Record.isChanged_of_clean (Bool.eq_false_iff.2 hclean)] at hmarked
      simp only [hdirty, if_true]
      refine ScopeM.ends_bind ?_ fun _ _ hbinds => ScopeM.ends_pure hbinds
      unfold updateImage
      refine ScopeM.ends_record_bind_of_some hentry (ScopeM.ends_lift_bind ?_ trivial)
      intro id _
      refine ScopeM.ends_lift_bind ?_ trivial
      intro number _
      refine ScopeM.ends_bind (ScopeM.ends_trivial _ scope) fun existing middle _ => ?_
      refine ScopeM.ends_lift_bind ?_ trivial
      intro stored _
      refine ScopeM.ends_lift_bind ?_ trivial
      intro written hwritten
      obtain ⟨pair, -, hpair⟩ := exists_of_mem_forall₂ (mapM_eq_ok.1 hwritten) hcolumn
      have hbinds := updateColumn_binds hdata hmarked hpair
      refine ScopeM.ends_lift_bind (fun _ _ => ?_) trivial
      exact ScopeM.ends_bind (ScopeM.ends_trivial _ middle) fun _ _ _ => ScopeM.ends_pure hbinds
  | deleted | removed => simp [hstate, Lifecycle.isLive] at hlive

/-- All images can be made only if what is marked can be bound. -/
theorem rowImages_binds (env : Environment) (hentry : scope.entries[handle]? = some entry) :
    (rowImages env).Ends scope (fun _ _ => ∃ value stored, entry.record.Binds column value stored)
      (fun _ => True) := by
  have hmade : (imagesOf env scope.handles).Ends scope _ _ := imagesOf_each scope.Imaged
    (fun place _ => place = handle → ∃ value stored, entry.record.Binds column value stored) (.refl scope) ?_
  · refine ScopeM.ends_get_bind (hmade.mono ?_ fun _ _ => trivial)
    rintro images _ ⟨-, -, hof⟩
    rcases hof handle (List.mem_range.2 (List.getElem?_eq_some_iff.1 hentry).1) with hnone | ⟨_, -, hsome⟩
    · exact hnone rfl
    · exact hsome rfl
  · intro place _ middle hmiddle
    refine ((image?_imaged env place middle hmiddle).and (?_ : (image? env place).Ends middle
      (fun _ _ => place = handle → ∃ value stored, entry.record.Binds column value stored)
      (fun _ => True))).mono (fun _ _ hdone => hdone) fun _ _ => trivial
    by_cases hplace : place = handle
    · subst hplace
      obtain ⟨record, hrecord, hmodel, -, hchanged, hvalues⟩ := hmiddle.entries place entry hentry
      -- What is marked takes no default.
      have hvalue : record.values.find? column.name = entry.record.values.find? column.name :=
        hvalues _ fun ⟨hunmarked, _⟩ => by simp [hmarked] at hunmarked
      have himage : (image? env place).Ends middle
          (fun _ _ => ∃ value stored, record.Binds column value stored) (fun _ => True) := by
        have hstays : ({ entry with record } : Entry).state.isLive = true := hlive
        refine image?_binds hstays (hmodel ▸ hcolumn) hdata ?_ env hrecord
        simpa [Record.isChanged, hchanged] using hmarked
      refine himage.mono ?_ fun _ _ => trivial
      rintro _ _ ⟨value, stored, hfound, hbind⟩ -
      exact ⟨value, stored, hvalue.symm.trans hfound, hmodel ▸ hbind⟩
    · exact (ScopeM.ends_trivial _ _).mono (fun _ _ _ heq => absurd heq hplace) fun _ _ => trivial

end

/-! ## What a column bears -/

/-- A column that was marked with what it held is marked still, or this has a stored form, which a flush
leaves in the column. -/
inductive Bears (scope : Scope) (entry : Entry) (column : Column) (held : Option Value) : Prop where
  | marked : entry.record.isChanged column.name = true → entry.record.values.find? column.name = held →
      Bears scope entry column held
  | bound (value stored : Value) : held = some value →
      column.bind entry.record.model.tableName value = .ok stored → scope.Leaves entry column stored →
      Bears scope entry column held

/-- Only the rows that are staged, the column and its mark matter. -/
theorem Bears.transfer (h : before.Bears entry column held) (hstaged : after.staged = before.staged)
    {new : Entry} (hstate : new.state = entry.state) (hmodel : new.record.model = entry.record.model)
    (hid : ∀ id, entry.record.id = some id → new.record.id = some id)
    (hchanged : new.record.isChanged column.name = entry.record.isChanged column.name)
    (hvalue : entry.record.isChanged column.name = true →
      new.record.values.find? column.name = entry.record.values.find? column.name) :
    after.Bears new column held := by
  cases h with
  | marked hmarked hfound => exact .marked (hchanged.trans hmarked) ((hvalue hmarked).trans hfound)
  | bound value stored hheld hbind hleaves =>
      refine .bound value stored hheld (hmodel ▸ hbind) ?_
      exact hleaves.transfer hstaged hstate hmodel hid hchanged hvalue

/-- Where there is no link, a flush that is underway leaves marks and what is marked. -/
theorem Treated.unlinked {record changed : Record} {name : String}
    (h : start.Treated scope handle record changed name) (hlink : start.links.find? (handle, name) = none) :
    changed.isChanged name = record.isChanged name ∧
      (record.isChanged name = true → changed.values.find? name = record.values.find? name) := by
  cases h with
  | kept hvalue hmark => exact ⟨hmark, fun _ => hvalue⟩
  | filled _ _ hfilled => cases hlink.symm.trans hfilled
  | given _ _ _ hunmarked hmark => exact ⟨hmark.trans hunmarked.symm, fun h => by cases hunmarked.symm.trans h⟩

/-- A column without a link bears what it held when it was marked, as long as its record is to stay and has its
row to itself. -/
def Bearing (scope : Scope) (handle : Handle) (column : Column) (held : Option Value) : Prop :=
  ∃ entry, scope.entries[handle]? = some entry ∧ column ∈ entry.record.model.columns ∧
    scope.links.find? (handle, column.name) = none ∧
    (entry.state.isLive = true → scope.Sole handle → scope.Bears entry column held)

namespace Bearing

theorem transfer (h : before.Bearing handle column held)
    (hspared : before.Spares after handle column.name) : after.Bearing handle column held := by
  obtain ⟨entry, hentry, hcolumn, hlink, hbears⟩ := h
  obtain ⟨new, hnew, hstate, hmark, hvalue⟩ := hspared.entry entry hentry
  obtain ⟨same, hsame, hmodel, hid⟩ := hspared.carries handle entry hentry
  obtain rfl := Option.some.inj (hnew.symm.trans hsame)
  refine ⟨new, hnew, hmodel ▸ hcolumn, hspared.link.trans hlink, ?_⟩
  intro hlive hsole
  have hstands := hstate hlive
  exact (hbears (hstands ▸ hlive) (hsole.of_carries hspared.carries)).transfer hspared.staged hstands hmodel
    hid hmark fun _ => hvalue

theorem underway (h : start.Bearing handle column held) (hunderway : start.Underway after) :
    after.Bearing handle column held := by
  obtain ⟨entry, hentry, hcolumn, hlink, hbears⟩ := h
  obtain ⟨record, hrecord, hmodel, hid, htreated⟩ := hunderway.entries handle entry hentry
  obtain ⟨hmark, hvalue⟩ := (htreated column.name).unlinked hlink
  refine ⟨_, hrecord, hmodel ▸ hcolumn, hunderway.unlinked hlink, ?_⟩
  intro hlive hsole
  exact (hbears hlive (hsole.of_carries hunderway.carries)).transfer hunderway.staged rfl hmodel hid hmark
    hvalue

end Bearing

section

variable (hregistry : env.registry.Consistent)
  (hcount : ∀ model ∈ env.registry.models, model.columns.length < 4294967296)
  (hdata : column.primaryKey = false)

include hregistry hcount hdata

/-- The last part of a flush binds what is marked, and stages it. -/
theorem staging_bearing (h : scope.Intact env terms deleted) (hkeyed : scope.LiveKeyed)
    (hentry : scope.entries[handle]? = some entry) (hlive : entry.state.isLive = true)
    (hbearing : scope.Bearing handle column held) :
    (staging env).Ends scope (fun _ after => after.Bearing handle column held) (fun _ => True) := by
  obtain ⟨same, hsame, hcolumn, hlink, hbears⟩ := hbearing
  obtain rfl := Option.some.inj (hentry.symm.trans hsame)
  obtain ⟨id, hid⟩ := Option.ne_none_iff_exists'.1 (hkeyed handle entry hentry hlive)
  by_cases hsole : scope.Sole handle
  · -- What is to be left in the column is staged.
    have hstages : ∀ value stored, held = some value →
        column.bind entry.record.model.tableName value = .ok stored → scope.Leaves entry column stored →
        (staging env).Ends scope (fun _ after => after.Bearing handle column held) (fun _ => True) := by
      intro value stored hheld hbind hleaves
      refine ((staging_keeps env scope).and (staging_leaves hregistry h.rooted hentry hlive hcolumn hdata
        hleaves hcount h.rows hsole hid)).mono ?_ fun _ _ => trivial
      rintro _ after ⟨⟨-, hlinks⟩, new, hnew, hmodel, hleft⟩
      refine ⟨new, hnew, hmodel ▸ hcolumn, by rw [hlinks, hlink], fun _ _ => ?_⟩
      exact .bound value stored hheld (hmodel ▸ hbind) hleft
    cases hbears hlive hsole with
    | bound value stored hheld hbind hleaves => exact hstages value stored hheld hbind hleaves
    | marked hmarked hheld =>
        by_cases hbinds : ∃ value stored, entry.record.Binds column value stored
        · obtain ⟨value, stored, hfound, hbind⟩ := hbinds
          exact hstages value stored (hheld.symm.trans hfound) hbind (.marked value hmarked hfound hbind)
        · unfold staging
          refine ScopeM.ends_bind ((rowImages_binds hlive hcolumn hdata hmarked env hentry).mono
            (fun _ _ hbound => hbound) fun _ _ => trivial) ?_
          exact fun _ _ hbound => absurd hbound hbinds
  · -- The record does not get its row to itself again.
    refine (staging_keeps env scope).mono ?_ fun _ _ => trivial
    rintro _ after ⟨hcarries, hlinks⟩
    obtain ⟨new, hnew, hmodel, -⟩ := hcarries handle entry hentry
    refine ⟨new, hnew, hmodel ▸ hcolumn, by rw [hlinks, hlink], ?_⟩
    exact fun _ hsole' => absurd (hsole'.of_carries hcarries) hsole

/-- A flush leaves what a column bears, whether it succeeds or fails. -/
theorem flush_bearing (h : start.Intact env terms deleted) (hstart : start.Orderly)
    (hbearing : start.Bearing handle column held) :
    (flush env).Ends start (fun _ after => after.Bearing handle column held)
      (fun after => after.Bearing handle column held) := by
  have ⟨entry, hentry, hcolumn, _⟩ := hbearing
  have hdone : (flush env).Ends start (fun _ after => after.Bearing handle column held) (fun _ => True) := by
    by_cases hlive : entry.state.isLive = true
    · refine flush_of_staging terms hregistry h.rooted hstart ?_
      intro filled hreached hunderway hkeyed _ _
      obtain ⟨record, hrecord, -⟩ := hunderway.entries handle entry hentry
      exact staging_bearing hregistry hcount hdata (h.reaches hregistry hcount hreached) hkeyed hrecord hlive
        (hbearing.underway hunderway)
    · refine ((flush_of_gone hregistry h.rooted hstart hentry (Bool.eq_false_iff.2 hlive)).and
        (flush_rests env start)).mono ?_ fun _ _ => trivial
      rintro _ after ⟨⟨new, hnew, hmodel, hgone⟩, hrests⟩
      refine ⟨new, hnew, hmodel ▸ hcolumn, by rw [hrests.unlinked]; rfl, ?_⟩
      exact fun hback => by simp [hgone] at hback
  refine (hdone.and (flush_underway hregistry h.rooted hstart)).mono (fun _ _ hboth => hboth.1) ?_
  exact fun _ hfailed => hbearing.underway hfailed.2

/-- Looking records up leaves what a column bears. -/
theorem lookable_bearing (h : start.Intact env terms deleted) :
    Lookable env fun scope => (start.Reaches env terms scope ∧ scope.Orderly) ∧
      scope.Bearing handle column held := by
  refine lookable_of_orderly hregistry h.rooted ?_ ?_ ?_
  · exact fun scope hscope => hscope.transfer (.of_same rfl rfl rfl)
  · exact fun scope entry identity hscope => hscope.transfer (.appendAs ..)
  · exact fun scope hreached horderly hscope =>
      flush_bearing hregistry hcount hdata (h.reaches hregistry hcount hreached) horderly hscope

end

/-! ## Rows of records that are to stay -/

/-- What is written for a record that is to stay is a row. -/
theorem Image.content_of_live {s : Standing} {image : RowImage} (h : Image env scope s (some image))
    (hlive : s.state.isLive = true) : ∃ content, image.content = some content := by
  cases h with
  | inserted _ row columns | updated _ row columns => exact ⟨(row, columns), rfl⟩
  | deleted _ hstate => simp [hstate, Lifecycle.isLive] at hlive

/-- The row of a record is there, or is going to be there since the record is new, as long as the record is to
stay and has its row to itself. -/
def Present (env : Environment) (scope : Scope) (handle : Handle) (model : Model) (id : Int64) : Prop :=
  ∃ state, scope.standing handle = some { state, model, id := some id } ∧
    (state.isLive = true → scope.Sole handle → state = .pending ∨
      ∃ row, scope.visibleRow env model.tableName id.toUInt64 = .ok (some row))

/-- A record with a key that is live after a move stands where it stood, unless the move settles the scope. -/
theorem Move.stands_cases (h : Move env terms before after) {s : Standing}
    (hs : before.standing handle = some s) (hid : s.id ≠ none) :
    (after.staged = before.staged ∧ ∃ state, after.standing handle = some { s with state } ∧
      (state.isLive = true → state = s.state)) ∨
    ∃ images, Images env before before.handles images ∧ after = Scope.settle images before := by
  have hsame : after.staged = before.staged → after.standing handle = before.standing handle →
      after.staged = before.staged ∧ ∃ state, after.standing handle = some { s with state } ∧
        (state.isLive = true → state = s.state) :=
    fun hstaged hkept => ⟨hstaged, s.state, hkept.trans hs, fun _ => rfl⟩
  cases h with
  | steady hsteady => exact Or.inl (hsame hsteady.staged (hsteady.standing handle))
  | exhaust => exact Or.inl (hsame rfl rfl)
  | @giveKey other model sequence current _ id hnew =>
      have hne : other ≠ handle := by
        rintro rfl
        cases hs.symm.trans hnew
        exact hid rfl
      refine Or.inl (hsame rfl ?_)
      rw [standing_giveKey (before.advance sequence (current + 1)) hnew, if_neg hne]
      rfl
  | enter | adopt =>
      refine Or.inl (hsame rfl ?_)
      rw [standing_appendAs, if_neg (Nat.ne_of_lt (lt_of_standing hs))]
  | withdraw other =>
      refine Or.inl ⟨rfl, if other = handle then s.state.afterDelete else s.state, ?_, ?_⟩
      · rw [standing_withdraw, hs, Option.map_some]
        split <;> rfl
      · split
        · exact fun hlive => by simp [Lifecycle.isLive_afterDelete] at hlive
        · exact fun _ => rfl
  | settle himages => exact Or.inr ⟨_, himages, rfl⟩

theorem Present.move {model : Model} (h : before.Present env handle model id)
    (hmove : Move env terms before after) : after.Present env handle model id := by
  obtain ⟨state, hs, hrow⟩ := h
  rcases hmove.stands_cases hs (Option.some_ne_none id) with
    ⟨hstaged, later, hlater, hlives⟩ | ⟨images, himages, rfl⟩
  · refine ⟨later, hlater, ?_⟩
    intro hlive hsole
    obtain rfl := hlives hlive
    refine (hrow hlive (hsole.of_move hmove)).imp_right ?_
    rintro ⟨row, hvisible⟩
    exact ⟨row, (visibleRow_congr (by rw [hstaged])).trans hvisible⟩
  · refine ⟨state.afterFlush, by rw [standing_settle, hs, Option.map_some], ?_⟩
    intro hlive hsole
    have hbefore := hsole.of_move hmove
    have hstays : state.isLive = true := by
      by_contra hgone
      rw [Lifecycle.afterFlush_of_gone (Bool.eq_false_iff.2 hgone)] at hlive
      cases hlive
    refine Or.inr ?_
    rcases hbefore.visibleRow_settled himages hs rfl with ⟨image, himage, hvisible⟩ | ⟨hstate, hvisible⟩
    · obtain ⟨content, hcontent⟩ := himage.content_of_live hstays
      exact ⟨content.1, by rw [hvisible, hcontent]; rfl⟩
    · -- There was nothing to write, so the record was stored.
      rcases hrow hstays hbefore with hpending | ⟨row, hthere⟩
      · rcases hstate with hstate | hstate <;> cases hpending.symm.trans hstate
      · exact ⟨row, hvisible.trans hthere⟩

theorem present_reaches {model : Model} (h : start.Present env handle model id)
    (hreaches : start.Reaches env terms scope) : scope.Present env handle model id := by
  induction hreaches with
  | refl => exact h
  | tail _ hmove ih => exact ih.move hmove

end Scope

end RecordStore
