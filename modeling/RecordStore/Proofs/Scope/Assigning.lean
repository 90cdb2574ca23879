import RecordStore.Proofs.Scope.References

/-!
# Assigning and deleting

An assignment becomes part of the history of a scope (`History.assign`), and the scope stays sound
with the longer history.  Deleting a record only changes where it stands.

A history may be replaced by another one that says the same about what was assigned, and at least as
much about when records were inserted (`Scope.Sound.of_history`).
-/

namespace RecordStore

namespace History

variable {history history' : History} {env : Environment} {drawn : Nat} {handle : Handle}
  {record : Record} {id : Int64} {column : Column} {stored : Value}

/-- The history after one more assignment. -/
def assign (history : History) (handle : Handle) (column : String) (value : Value) : History :=
  { history with last := fun other name =>
      if (other, name) = (handle, column) then some value else history.last other name }

theorem last_assign_of_ne (history : History) {handle other : Handle} {column name : String}
    (value : Value) (hne : (other, name) ≠ (handle, column)) :
    (history.assign handle column value).last other name = history.last other name :=
  if_neg hne

theorem Explains.of_history (h : history.Explains env drawn handle record id column stored)
    (hclock : history'.clock = history.clock)
    (hlast : history'.last handle column.name = history.last handle column.name)
    (hborn : ∀ n, n ≤ drawn → history.born handle n → history'.born handle n) :
    history'.Explains env drawn handle record id column stored := by
  cases h with
  | assigned v hassigned hbind => exact .assigned v (hlast.trans hassigned) hbind
  | initial hnone hnew hholds =>
      refine .initial (hlast.trans hnone) hnew ?_
      rw [hclock]
      exact hholds.mono fun n hn => ⟨hborn n hn.2 hn.1, hn.2⟩
  | loaded row columns value hnone hrow hcolumns hstored hfound hload =>
      exact .loaded row columns value (hlast.trans hnone) hrow hcolumns hstored hfound hload

end History

namespace Scope

variable {env : Environment} {history history' : History} {scope : Scope} {handle : Handle}
  {entry : Entry}

/-! ## Other histories -/

theorem EntrySound.of_history (h : scope.EntrySound env history handle entry)
    (hclock : history'.clock = history.clock)
    (hlast : ∀ column, history'.last handle column = history.last handle column)
    (hborn : entry.state = .persistent →
      ∀ n, n ≤ scope.supply.drawn → history.born handle n → history'.born handle n) :
    scope.EntrySound env history' handle entry where
  registered := h.registered
  identified := h.identified
  numbered := h.numbered
  numbered_here := h.numbered_here
  present := h.present
  absent := h.absent
  marked hlive column hdata hchanged := by
    rcases h.marked hlive column hdata hchanged with ⟨value, hassigned, hfound⟩
    exact ⟨value, (hlast column.name).trans hassigned, hfound⟩
  unassigned hstate column hdata hchanged :=
    (hlast column.name).trans (h.unassigned hstate column hdata hchanged)
  explained hstate id row columns hid hvisible hcolumns column hdata hchanged :=
    (h.explained hstate id row columns hid hvisible hcolumns column hdata hchanged).of_history
      hclock
      (hlast column.name) (hborn hstate)

/-- A scope stays sound when more is allowed about the insertion of its records. -/
theorem Sound.of_history (h : scope.Sound env history) (hclock : history'.clock = history.clock)
    (hlast : ∀ handle column, history'.last handle column = history.last handle column)
    (hborn : ∀ (handle : Handle) (entry : Entry), scope.entries[handle]? = some entry →
      entry.state = .persistent →
        ∀ n, n ≤ scope.supply.drawn → history.born handle n → history'.born handle n) :
    scope.Sound env history' where
  entries handle entry hentry :=
    (h.entries handle entry hentry).of_history hclock (hlast handle) (hborn handle entry hentry)
  identity := h.identity
  rows_fit := h.rows_fit
  rows_numbered := h.rows_numbered
  staged := h.staged
  sequences := h.sequences
  links := h.links
  fresh handle hhandle column := (hlast handle column).trans (h.fresh handle hhandle column)
  supply := by
    rw [hclock]
    exact h.supply

/-! ## Changes of one record -/

/-- The scope with one of its records changed. -/
def modifyEntry (scope : Scope) (handle : Handle) (f : Entry → Entry) : Scope :=
  { scope with entries := scope.entries.modify handle f }

theorem getElem?_modifyEntry (scope : Scope) (handle : Handle) (f : Entry → Entry)
    (other : Handle) :
    (scope.modifyEntry handle f).entries[other]? =
      (scope.entries[other]?).map fun entry => if handle = other then f entry else entry := by
  unfold modifyEntry
  rw [List.getElem?_modify]
  rfl

theorem carries_modifyEntry {f : Entry → Entry} (hentry : scope.entries[handle]? = some entry)
    (hmodel : (f entry).record.model = entry.record.model)
    (hid : (f entry).record.id = entry.record.id) :
    scope.Carries (scope.modifyEntry handle f) := by
  intro other old hold
  rw [getElem?_modifyEntry, hold]
  by_cases hsame : handle = other
  · subst hsame
    rw [hentry] at hold
    cases hold
    exact ⟨f entry, by rw [Option.map_some, if_pos rfl], hmodel, fun id hkey => hid.trans hkey⟩
  · exact ⟨old, by rw [Option.map_some, if_neg hsame], rfl, fun id hkey => hkey⟩

/-- What has to be shown when one record changes but keeps its model and its key. -/
theorem Sound.modifyEntry (h : scope.Sound env history) {f : Entry → Entry}
    (hentry : scope.entries[handle]? = some entry)
    (hmodel : (f entry).record.model = entry.record.model)
    (hid : (f entry).record.id = entry.record.id) (hclock : history'.clock = history.clock)
    (hlast : ∀ other column, other ≠ handle →
      history'.last other column = history.last other column)
    (hborn : history'.born = history.born)
    (hnew : scope.EntrySound env history' handle (f entry)) :
    (scope.modifyEntry handle f).Sound env history' := by
  -- What is said of a record does not depend on other records.
  have hmoved : ∀ (other : Handle) (new : Entry), scope.EntrySound env history' other new →
      (scope.modifyEntry handle f).EntrySound env history' other new := fun other new hsound =>
    hsound.transfer (.refl new) (fun _ _ => rfl) (fun _ _ => rfl)
      (fun _ value hvalue => ⟨value, hvalue, Nat.le_refl _⟩) (Nat.le_refl _)
  have hcarries : scope.Carries (scope.modifyEntry handle f) :=
    carries_modifyEntry hentry hmodel hid
  constructor
  case entries =>
    intro other new hfound
    rw [getElem?_modifyEntry] at hfound
    rcases Option.map_eq_some_iff.1 hfound with ⟨old, hold, hmade⟩
    by_cases hsame : handle = other
    · subst hsame
      rw [if_pos rfl] at hmade
      rw [hentry] at hold
      cases hold
      rw [← hmade]
      exact hmoved handle (f entry) hnew
    · rw [if_neg hsame] at hmade
      subst hmade
      refine hmoved other old ((h.entries other old hold).of_history hclock ?_ ?_)
      · intro column
        exact hlast other column fun heq => hsame heq.symm
      · intro _ n _ hn
        rw [hborn]
        exact hn
  case identity =>
    intro name id other hfind
    exact hcarries.identity (h.identity name id other hfind)
  case rows_fit => exact h.rows_fit
  case rows_numbered => exact h.rows_numbered
  case staged =>
    intro table number row hstaged
    exact hcarries.staged (h.staged table number row hstaged)
  case sequences => exact h.sequences
  case links =>
    intro other column target hlink
    exact hcarries.isReference (h.links other column target hlink)
  case fresh =>
    intro other hother column
    -- A handle without a record is not the one whose record has changed.
    have hlength : (scope.modifyEntry handle f).entries.length = scope.entries.length :=
      List.length_modify ..
    rw [hlength] at hother
    have hhandle := (List.getElem?_eq_some_iff.1 hentry).1
    have hne : other ≠ handle := Nat.ne_of_gt (Nat.lt_of_lt_of_le hhandle hother)
    rw [hlast other column hne]
    exact h.fresh other hother column
  case supply =>
    rw [hclock]
    exact h.supply

/-! ## Assignments -/

theorem set_eq_ok {record changed : Record} {attr : String} {value : Value}
    (h : record.set attr value = .ok changed) :
    changed = (record.putValue attr value).markChanged attr := by
  unfold Record.set at h
  cases hcolumn : record.model.column? attr with
  | none =>
      simp only [hcolumn] at h
      cases h
  | some column =>
      simp only [hcolumn] at h
      by_cases hkey : column.primaryKey = true
      · rw [if_pos hkey] at h
        cases h
      · rw [if_neg hkey] at h
        cases h
        rfl

theorem unmarked_of_assigned {record : Record} {attr name : String} {value : Value}
    (h : ((record.putValue attr value).markChanged attr).isChanged name = false) :
    name ≠ attr ∧ record.isChanged name = false := by
  rw [Record.isChanged_markChanged] at h
  by_cases hname : name = attr
  · rw [if_pos hname] at h
    cases h
  · rw [if_neg hname] at h
    exact ⟨hname, h⟩

theorem EntrySound.assign (h : scope.EntrySound env history handle entry) (attr : String)
    (value : Value) :
    scope.EntrySound env (history.assign handle attr value) handle
      { entry with record := (entry.record.putValue attr value).markChanged attr } where
  registered := h.registered
  identified := h.identified
  numbered := h.numbered
  numbered_here := h.numbered_here
  present := h.present
  absent := h.absent
  marked hlive column hdata hchanged := by
    show ∃ stored, (history.assign handle attr value).last handle column.name = some stored ∧
      (entry.record.putValue attr value).values.find? column.name = some stored
    rw [Record.find?_putValue]
    by_cases hname : column.name = attr
    · rw [hname, if_pos rfl]
      exact ⟨value, if_pos rfl, rfl⟩
    · have hne : (handle, column.name) ≠ (handle, attr) := fun heq => hname (Prod.ext_iff.1 heq).2
      change ((entry.record.putValue attr value).markChanged attr).isChanged column.name = true
        at hchanged
      rw [Record.isChanged_markChanged, if_neg hname] at hchanged
      rw [if_neg hname, history.last_assign_of_ne value hne]
      exact h.marked hlive column hdata hchanged
  unassigned hstate column hdata hchanged := by
    rcases unmarked_of_assigned hchanged with ⟨hname, hbefore⟩
    have hne : (handle, column.name) ≠ (handle, attr) := fun heq => hname (Prod.ext_iff.1 heq).2
    rw [history.last_assign_of_ne value hne]
    exact h.unassigned hstate column hdata hbefore
  explained hstate id row columns hid hvisible hcolumns column hdata hchanged := by
    rcases unmarked_of_assigned hchanged with ⟨hname, hbefore⟩
    have hne : (handle, column.name) ≠ (handle, attr) := fun heq => hname (Prod.ext_iff.1 heq).2
    -- The column is not the one assigned to, so its last assignment and its value are as before.
    have hexplained := h.explained hstate id row columns hid hvisible hcolumns column hdata hbefore
    have hsame : ((entry.record.putValue attr value).markChanged attr).values.find? column.name =
        entry.record.values.find? column.name := by
      show (entry.record.putValue attr value).values.find? column.name = _
      rw [Record.find?_putValue, if_neg hname]
    have hlonger : (history.assign handle attr value).Explains env scope.supply.drawn handle
        entry.record id column (storedColumn columns column.name) :=
      hexplained.of_history rfl (history.last_assign_of_ne value hne) fun _ _ hn => hn
    exact hlonger.transfer rfl hsame (Nat.le_refl _)

/-- An assignment becomes part of the history, and a scope stays sound. -/
theorem assign_ends (h : scope.Sound env history) (handle : Handle) (attr : String)
    (value : Value) :
    (updateRecord handle fun record => record.set attr value).Ends scope
      (fun _ after => after.Sound env (history.assign handle attr value) ∧
        after.supply = scope.supply)
      (fun after => after = scope) := by
  refine (updateRecord_cases scope handle _).mono ?_ fun _ hfailed => hfailed
  rintro _ _ ⟨entry, changed, hentry, hset, rfl⟩
  refine ⟨?_, rfl⟩
  show (scope.modifyEntry handle fun entry => { entry with record := changed }).Sound env _
  rw [set_eq_ok hset]
  refine h.modifyEntry hentry rfl rfl rfl ?_ rfl ((h.entries handle entry hentry).assign attr value)
  intro other column hother
  exact history.last_assign_of_ne value fun heq => hother (Prod.ext_iff.1 heq).1

/-! ## Deletions -/

theorem afterDelete_cases (state : Lifecycle) :
    (state.afterDelete = .removed ∧ (state = .pending ∨ state = .removed)) ∨
      (state.afterDelete = .deleted ∧ (state = .persistent ∨ state = .deleted)) := by
  cases state with
  | pending => exact Or.inl ⟨rfl, Or.inl rfl⟩
  | persistent => exact Or.inr ⟨rfl, Or.inl rfl⟩
  | deleted => exact Or.inr ⟨rfl, Or.inr rfl⟩
  | removed => exact Or.inl ⟨rfl, Or.inr rfl⟩

theorem EntrySound.delete (h : scope.EntrySound env history handle entry) :
    scope.EntrySound env history handle { entry with state := entry.state.afterDelete } := by
  -- Whatever becomes of the record, it is neither new nor stored, nor is it flushed as live.
  have hnot : ∀ state, entry.state.afterDelete = state → state ≠ .pending ∧ state ≠ .persistent ∧
      state.isLive = false := by
    rintro _ rfl
    rcases afterDelete_cases entry.state with ⟨hstate, -⟩ | ⟨hstate, -⟩
    · rw [hstate]
      decide
    · rw [hstate]
      decide
  constructor
  case registered => exact h.registered
  case identified => exact h.identified
  case numbered => exact h.numbered
  case numbered_here =>
    intro _ _ _ hstate
    exact absurd rfl (hnot _ hstate).1
  case present =>
    intro hstate
    refine h.present ?_
    rcases afterDelete_cases entry.state with ⟨hremoved, -⟩ | ⟨-, hbefore⟩
    · change entry.state.afterDelete = _ ∨ entry.state.afterDelete = _ at hstate
      rw [hremoved] at hstate
      rcases hstate with hstate | hstate
      · cases hstate
      · cases hstate
    · exact hbefore
  case absent =>
    intro hstate
    refine h.absent ?_
    rcases afterDelete_cases entry.state with ⟨-, hbefore⟩ | ⟨hdeleted, -⟩
    · exact hbefore
    · change entry.state.afterDelete = _ ∨ entry.state.afterDelete = _ at hstate
      rw [hdeleted] at hstate
      rcases hstate with hstate | hstate
      · cases hstate
      · cases hstate
  case marked =>
    intro hlive
    have hgone := (hnot _ rfl).2.2
    change entry.state.afterDelete.isLive = true at hlive
    rw [hgone] at hlive
    cases hlive
  case unassigned =>
    intro hstate
    exact absurd rfl (hnot _ hstate).1
  case explained =>
    intro hstate
    exact absurd rfl (hnot _ hstate).2.1

theorem delete_ends (h : scope.Sound env history) (handle : Handle) :
    (delete handle).Ends scope
      (fun _ after => after.Sound env history ∧ after.supply = scope.supply)
      (fun after => after = scope) := by
  unfold delete
  refine ScopeM.ends_entry_bind ?_ rfl
  intro entry hentry
  refine ScopeM.ends_modify ⟨?_, rfl⟩
  exact h.modifyEntry hentry rfl rfl rfl (fun _ _ _ => rfl) rfl
    (h.entries handle entry hentry).delete

end Scope

end RecordStore
