import RecordStore.Proofs.Scope.Keeping

/-!
# What making images does

Making the images of a flush changes little in a scope: a new record gets the defaults that are written for
it, where nothing is marked, and all else stays (`Scope.Imaged`).  A flush that succeeds leaves a scope at
rest (`Scope.flush_rests`), and a scope at rest is not changed by a flush (`Scope.flush_of_rest`).
-/

namespace RecordStore

namespace ScopeM

variable {α : Type} {kept : Scope → Prop}

theorem keeps_entry_bind {handle : Handle} {next : Entry → ScopeM α}
    (h : ∀ scope entry, kept scope → scope.entries[handle]? = some entry →
      (next entry).Ends scope (fun _ => kept) kept) :
    Keeps kept (Scope.entry handle >>= next) :=
  fun scope hscope => ends_entry_bind (fun entry hentry => h scope entry hscope hentry) hscope

theorem keeps_record_bind {handle : Handle} {next : Record → ScopeM α}
    (h : ∀ scope entry, kept scope → scope.entries[handle]? = some entry →
      (next entry.record).Ends scope (fun _ => kept) kept) :
    Keeps kept (Scope.record handle >>= next) :=
  fun scope hscope => ends_record_bind (fun entry hentry => h scope entry hscope hentry) hscope

end ScopeM

/-- Nothing is marked under a name, and its column has a default. -/
def Record.TakesDefault (record : Record) (name : String) : Prop :=
  record.isChanged name = false ∧
    ∃ column ∈ record.model.columns, column.name = name ∧ column.default ≠ none

namespace Scope

variable {env : Environment} {start scope before after last : Scope} {handle : Handle} {entry : Entry}
  {column : Column}

/-! ## Scopes in which images are made -/

/-- Some records may have got defaults, and nothing else has happened. -/
structure Imaged (before after : Scope) : Prop where
  staged : after.staged = before.staged
  links : after.links = before.links
  length : after.entries.length = before.entries.length
  entries : ∀ (handle : Handle) (entry : Entry), before.entries[handle]? = some entry →
    ∃ record, after.entries[handle]? = some { entry with record } ∧
      record.model = entry.record.model ∧ record.id = entry.record.id ∧
      record.changed = entry.record.changed ∧
      ∀ name, ¬entry.record.TakesDefault name →
        record.values.find? name = entry.record.values.find? name

namespace Imaged

theorem of_same (hstaged : after.staged = before.staged) (hlinks : after.links = before.links)
    (hentries : after.entries = before.entries) : before.Imaged after where
  staged := hstaged
  links := hlinks
  length := by rw [hentries]
  entries handle entry hentry := ⟨entry.record, by rw [hentries, hentry], rfl, rfl, rfl, fun _ _ => rfl⟩

theorem refl (scope : Scope) : scope.Imaged scope :=
  of_same rfl rfl rfl

theorem trans (h : before.Imaged after) (h' : after.Imaged last) : before.Imaged last where
  staged := h'.staged.trans h.staged
  links := h'.links.trans h.links
  length := h'.length.trans h.length
  entries handle entry hentry := by
    obtain ⟨record, hrecord, hmodel, hid, hchanged, hvalues⟩ := h.entries handle entry hentry
    obtain ⟨final, hfinal, hmodel', hid', hchanged', hvalues'⟩ := h'.entries handle _ hrecord
    refine ⟨final, hfinal, hmodel'.trans hmodel, hid'.trans hid, hchanged'.trans hchanged, ?_⟩
    intro name hname
    -- A name takes a default later only if it does at the start.
    have hlater : ¬record.TakesDefault name := by
      simpa [Record.TakesDefault, Record.isChanged, hmodel, hchanged] using hname
    exact (hvalues' name hlater).trans (hvalues name hname)

theorem carries (h : before.Imaged after) : before.Carries after := by
  intro handle entry hentry
  obtain ⟨record, hrecord, hmodel, hid, -⟩ := h.entries handle entry hentry
  exact ⟨_, hrecord, hmodel, fun _ hkey => hid.trans hkey⟩

theorem of_lookUp (h : start.Imaged scope)
    (hafter : after = scope ∨ after = { scope with consulted := true }) : start.Imaged after := by
  rcases hafter with rfl | rfl
  · exact h
  · exact h.trans (.of_same rfl rfl rfl)

/-- A record that has no mark under a name gets the default there. -/
theorem putDefault (h : start.Imaged scope) (hentry : start.entries[handle]? = some entry)
    {name : String} (hdefault : entry.record.TakesDefault name) (value : Value) :
    start.Imaged (scope.modifyRecord handle fun record => record.putValue name value) where
  staged := h.staged
  links := h.links
  length := (List.length_modify ..).trans h.length
  entries other old hold := by
    obtain ⟨record, hrecord, hmodel, hid, hchanged, hvalues⟩ := h.entries other old hold
    rw [getElem?_modifyRecord, hrecord, Option.map_some]
    by_cases hsame : handle = other
    · subst hsame
      obtain rfl := Option.some.inj (hentry.symm.trans hold)
      rw [if_pos rfl]
      refine ⟨record.putValue name value, rfl, hmodel, hid, hchanged, ?_⟩
      intro attr hattr
      have hne : attr ≠ name := by
        rintro rfl
        exact hattr hdefault
      rw [Record.find?_putValue, if_neg hne, hvalues attr hattr]
    · exact ⟨record, by rw [if_neg hsame], hmodel, hid, hchanged, hvalues⟩

end Imaged

/-! ## New rows -/

theorem keeps_now : now.Keeps start.Imaged :=
  fun _ h => h.trans (.of_same rfl rfl rfl)

theorem keeps_evaluateDefault (default : DefaultValue) : (evaluateDefault default).Keeps start.Imaged :=
  fun _ h => h.trans (.of_same rfl rfl rfl)

/-- The record that is written is the one that the scope had at the start. -/
theorem insertColumn_imaged (hentry : start.entries[handle]? = some entry) (id : Int64)
    (hcolumn : column ∈ entry.record.model.columns) :
    (insertColumn handle entry.record id column).Keeps start.Imaged := by
  unfold insertColumn
  by_cases hprimary : column.primaryKey = true
  · simpa [hprimary] using ScopeM.keeps_pure _
  simp only [hprimary, Bool.false_eq_true, if_false]
  by_cases hchanged : entry.record.isChanged column.name = true
  · simp only [hchanged, if_true]
    exact (ScopeM.keeps_lift _).bind fun _ => (ScopeM.keeps_lift _).bind fun _ => ScopeM.keeps_pure _
  · simp only [hchanged, Bool.false_eq_true, if_false]
    cases hdefault : column.default with
    | some default =>
        have htakes : entry.record.TakesDefault column.name :=
          ⟨Bool.eq_false_iff.2 hchanged, column, hcolumn, rfl, by simp [hdefault]⟩
        refine (keeps_evaluateDefault default).bind fun value => ?_
        refine (ScopeM.keeps_lift _).bind fun bound => ?_
        have hput : (modify fun scope : Scope => scope.modifyRecord handle fun record =>
            record.putValue column.name value : ScopeM PUnit).Keeps start.Imaged :=
          fun _ h => ScopeM.ends_modify (h.putDefault hentry htakes value)
        exact hput.bind fun _ => ScopeM.keeps_pure _
    | none =>
        exact ScopeM.keeps_ite _ (ScopeM.keeps_pure _)
          ((ScopeM.keeps_lift _).bind fun _ => ScopeM.keeps_pure _)

theorem insertColumns_imaged (hentry : start.entries[handle]? = some entry) (id : Int64)
    {columns : List Column} (hcolumns : ∀ column ∈ columns, column ∈ entry.record.model.columns) :
    (insertColumns handle entry.record id columns).Keeps start.Imaged := by
  induction columns with
  | nil => exact ScopeM.keeps_pure []
  | cons column rest ih =>
      have hrest := ih fun other hother => hcolumns other (List.mem_cons_of_mem _ hother)
      exact (insertColumn_imaged hentry id (hcolumns column List.mem_cons_self)).bind fun _ =>
        hrest.bind fun _ => ScopeM.keeps_pure _

theorem insertImage_imaged (handle : Handle) : (insertImage handle).Keeps start.Imaged := by
  refine ScopeM.keeps_record_bind ?_
  intro scope entry h hentry
  refine ScopeM.ends_lift_bind ?_ h
  intro id _
  -- The columns are written from the record as it is now, not from the one at the start.
  have hcolumns := insertColumns_imaged hentry id (fun _ hcolumn => hcolumn) scope (.refl scope)
  refine ScopeM.ends_bind (hcolumns.mono (fun _ _ hdone => h.trans hdone)
    fun _ hfailed => h.trans hfailed) ?_
  intro columns written hwritten
  exact ((ScopeM.keeps_lift _).bind fun _ => keeps_now.bind fun _ =>
    (ScopeM.keeps_lift _).bind fun _ => ScopeM.keeps_pure _) written hwritten

/-! ## All images -/

theorem lookUpRow_imaged (env : Environment) (table : String) (number : UInt64) :
    (lookUpRow env table number).Keeps start.Imaged := fun scope h =>
  (lookUpRow_cases scope env table number).mono (fun _ _ hdone => h.of_lookUp hdone.1)
    fun _ hfailed => h.of_lookUp hfailed

theorem updateImage_imaged (env : Environment) (handle : Handle) :
    (updateImage env handle).Keeps start.Imaged :=
  (ScopeM.keeps_record handle).bind fun _ => (ScopeM.keeps_lift _).bind fun _ =>
    (ScopeM.keeps_lift _).bind fun _ => (lookUpRow_imaged env _ _).bind fun _ =>
      (ScopeM.keeps_lift _).bind fun _ => (ScopeM.keeps_lift _).bind fun _ =>
        (ScopeM.keeps_lift _).bind fun _ => keeps_now.bind fun _ => ScopeM.keeps_pure _

theorem deleteImage_imaged (handle : Handle) : (deleteImage handle).Keeps start.Imaged :=
  (ScopeM.keeps_record handle).bind fun _ => (ScopeM.keeps_lift _).bind fun _ =>
    (ScopeM.keeps_lift _).bind fun _ => ScopeM.keeps_pure _

theorem image?_imaged (env : Environment) (handle : Handle) :
    (image? env handle).Keeps start.Imaged := by
  refine ScopeM.keeps_entry_bind ?_
  intro scope entry h _
  cases entry.state with
  | pending => exact ((insertImage_imaged handle).bind fun _ => ScopeM.keeps_pure _) scope h
  | persistent =>
      exact ScopeM.keeps_ite _ ((updateImage_imaged env handle).bind fun _ => ScopeM.keeps_pure _)
        (ScopeM.keeps_pure _) scope h
  | deleted => exact ((deleteImage_imaged handle).bind fun _ => ScopeM.keeps_pure _) scope h
  | removed => exact h

theorem imagesOf_imaged (env : Environment) (handles : List Handle) :
    (imagesOf env handles).Keeps start.Imaged := by
  induction handles with
  | nil => exact ScopeM.keeps_pure []
  | cons handle rest ih =>
      refine (image?_imaged env handle).bind ?_
      intro image
      cases image with
      | none => exact ih
      | some image => exact ih.bind fun _ => ScopeM.keeps_pure _

theorem rowImages_imaged (env : Environment) : (rowImages env).Keeps start.Imaged :=
  ScopeM.keeps_get_bind fun _ => imagesOf_imaged env _

/-! ## Scopes at rest -/

/-- Nothing is new, marked or linked. -/
structure AtRest (scope : Scope) : Prop where
  settled : scope.Settled
  unlinked : scope.links = ∅

/-- Once links are filled, none is left. -/
theorem resolveLinks_forgets (scope : Scope) :
    resolveLinks.Ends scope (fun _ after => after.links = ∅) fun _ => True := by
  have hloop : (scope.links.toList.forM resolveLink).Ends { scope with links := ∅ }
      (fun _ after => after.links = ∅) (fun _ => True) := by
    refine ScopeM.ends_forM rfl ?_
    rintro ⟨⟨handle, column⟩, target⟩ - filling hfilling
    unfold resolveLink
    refine ScopeM.ends_get_bind ?_
    cases filling.linkedId? target with
    | none => exact ScopeM.ends_throw trivial
    | some id => exact ScopeM.ends_modify hfilling
  exact ScopeM.ends_get_bind (ScopeM.ends_set_bind hloop)

/-- A flush that succeeds leaves the scope at rest. -/
theorem flush_rests (env : Environment) (scope : Scope) :
    (flush env).Ends scope (fun _ after => after.AtRest) (fun _ => True) := by
  unfold flush
  refine ScopeM.ends_bind (ScopeM.ends_trivial _ _) fun _ keyed _ => ?_
  refine ScopeM.ends_bind (resolveLinks_forgets keyed) fun _ filled hfilled => ?_
  refine ScopeM.ends_bind ((rowImages_imaged env filled (.refl filled)).mono (fun _ _ h => h)
    fun _ _ => trivial) fun images imaged himaged => ?_
  refine ScopeM.ends_get_bind (ScopeM.ends_lift_bind (fun _ _ => ScopeM.ends_modify ?_) trivial)
  exact ⟨settled_settle images imaged, himaged.links.trans hfilled⟩

namespace AtRest

/-- The record of a scope at rest has nothing to be done. -/
theorem entry_cases (h : scope.AtRest) (hhandle : handle ∈ scope.handles) :
    ∃ entry, scope.entries[handle]? = some entry ∧ entry.state ≠ .pending ∧
      (entry.state = .persistent ∧ entry.record.isDirty = false ∨ entry.state = .removed) := by
  have hlt : handle < scope.entries.length := List.mem_range.1 hhandle
  refine ⟨scope.entries[handle], List.getElem?_eq_getElem hlt, ?_⟩
  rcases h.settled handle _ (List.getElem?_eq_getElem hlt) with ⟨hstate, hchanged⟩ | hstate
  · exact ⟨by simp [hstate], Or.inl ⟨hstate, by simp [Record.isDirty, hchanged]; rfl⟩⟩
  · exact ⟨by simp [hstate], Or.inr hstate⟩

theorem assignId_idle (h : scope.AtRest) (hhandle : handle ∈ scope.handles) :
    (assignId env handle).Ends scope (fun _ after => after = scope) (fun _ => False) := by
  obtain ⟨entry, hentry, hstate, -⟩ := h.entry_cases hhandle
  unfold assignId
  refine ScopeM.ends_entry_bind_of_some hentry ?_
  rw [if_neg fun hnew => hstate hnew.1]
  exact ScopeM.ends_pure rfl

theorem image?_idle (h : scope.AtRest) (hhandle : handle ∈ scope.handles) :
    (image? env handle).Ends scope (fun image after => image = none ∧ after = scope)
      (fun _ => False) := by
  obtain ⟨entry, hentry, -, ⟨hstate, hclean⟩ | hstate⟩ := h.entry_cases hhandle
  · unfold image?
    refine ScopeM.ends_entry_bind_of_some hentry ?_
    simp only [hstate, hclean, Bool.false_eq_true, if_false]
    exact ScopeM.ends_pure ⟨rfl, rfl⟩
  · unfold image?
    refine ScopeM.ends_entry_bind_of_some hentry ?_
    simp only [hstate]
    exact ScopeM.ends_pure ⟨rfl, rfl⟩

theorem imagesOf_idle (h : scope.AtRest) {handles : List Handle}
    (hhandles : ∀ handle ∈ handles, handle ∈ scope.handles) :
    (imagesOf env handles).Ends scope (fun images after => images = [] ∧ after = scope)
      (fun _ => False) := by
  induction handles with
  | nil => exact ScopeM.ends_pure ⟨rfl, rfl⟩
  | cons handle rest ih =>
      unfold imagesOf
      refine ScopeM.ends_bind (h.image?_idle (hhandles handle List.mem_cons_self)) ?_
      rintro _ _ ⟨rfl, rfl⟩
      exact ih fun other hother => hhandles other (List.mem_cons_of_mem _ hother)

/-- Settling a scope at rest with nothing to write leaves it as it is. -/
theorem settle_nil (h : scope.AtRest) : Scope.settle [] scope = scope := by
  have hentry : ∀ entry ∈ scope.entries, settleEntry entry = entry := by
    rintro ⟨record, state⟩ hmem
    obtain ⟨place, hplace⟩ := List.mem_iff_getElem?.1 hmem
    rcases h.settled place _ hplace with ⟨hstate, hchanged⟩ | hstate
    · obtain rfl : state = .persistent := hstate
      have hclean : record.clearChanges = record := by
        unfold Record.clearChanges
        rw [← hchanged]
      simp [settleEntry, Lifecycle.isLive, Lifecycle.afterFlush, hclean]
    · obtain rfl : state = .removed := hstate
      rfl
  unfold Scope.settle
  rw [List.map_congr_left hentry, List.map_id']
  rfl

end AtRest

/-- A flush changes nothing in a scope at rest. -/
theorem flush_of_rest (env : Environment) (h : scope.AtRest) :
    (flush env).Ends scope (fun _ after => after = scope) (fun _ => False) := by
  have hassign : (assignIds env).Ends scope (fun _ after => after = scope) (fun _ => False) := by
    refine ScopeM.ends_get_bind (ScopeM.ends_forM rfl ?_)
    rintro handle hhandle _ rfl
    exact h.assignId_idle hhandle
  have hresolve : resolveLinks.Ends scope (fun _ after => after = scope) (fun _ => False) := by
    refine ScopeM.ends_get_bind (ScopeM.ends_set_bind ?_)
    rw [h.unlinked]
    refine ScopeM.ends_pure ?_
    rw [← h.unlinked]
  unfold flush
  refine ScopeM.ends_bind hassign ?_
  rintro _ _ rfl
  refine ScopeM.ends_bind hresolve ?_
  rintro _ _ rfl
  refine ScopeM.ends_bind (ScopeM.ends_get_bind (h.imagesOf_idle fun _ hhandle => hhandle)) ?_
  rintro _ _ ⟨rfl, rfl⟩
  exact ScopeM.ends_get_bind (ScopeM.ends_lift_bind_of_ok rfl (ScopeM.ends_modify h.settle_nil))

end Scope

end RecordStore
