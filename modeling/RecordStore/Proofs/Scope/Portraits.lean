import RecordStore.Proofs.Scope.Mirroring

/-!
# Images that portray records

An image portrays a record (`Scope.Portrait`) when the record reflects what the image holds in each
column but the key.  New records get the defaults that are written for them, changed columns are bound
from the values of the record, and all others are kept from a row that the record reflects already.  So
once the images of a flush are staged, all records reflect their rows (`Scope.Mirrored.settle`).
-/

namespace RecordStore

namespace Scope

variable {env : Environment} {deleted : List (String × UInt64)}
  {start scope before after last : Scope} {handle : Handle} {entry : Entry} {record : Record}
  {column : Column} {columns : List Column} {find? : String → Option Model} {names : List String}
  {images : List RowImage} {image : RowImage}

/-! ## Defaults -/

/-- At most one record has changed, and only by defaults in columns of the given names. -/
structure Dressed (handle : Handle) (names : List String) (before after : Scope) : Prop where
  others : ∀ other : Handle, other ≠ handle → after.entries[other]? = before.entries[other]?
  own : ∀ entry, before.entries[handle]? = some entry → ∃ record,
    after.entries[handle]? = some { entry with record } ∧ record.model = entry.record.model ∧
    record.id = entry.record.id ∧ record.changed = entry.record.changed ∧
    ∀ name, name ∉ names → record.values.find? name = entry.record.values.find? name

namespace Dressed

theorem of_same (hentries : after.entries = before.entries) (handle : Handle) (names : List String) :
    Dressed handle names before after where
  others _ _ := by rw [hentries]
  own entry hentry := ⟨entry.record, by rw [hentries, hentry], rfl, rfl, rfl, fun _ _ => rfl⟩

theorem trans {more : List String} (h : Dressed handle names before after)
    (h' : Dressed handle more after last) : Dressed handle (names ++ more) before last where
  others other hne := (h'.others other hne).trans (h.others other hne)
  own entry hentry := by
    obtain ⟨record, hrecord, hmodel, hid, hchanged, hvalues⟩ := h.own entry hentry
    obtain ⟨final, hfinal, hmodel', hid', hchanged', hvalues'⟩ := h'.own _ hrecord
    refine ⟨final, hfinal, hmodel'.trans hmodel, hid'.trans hid, hchanged'.trans hchanged, ?_⟩
    intro name hname
    rw [List.mem_append, not_or] at hname
    exact (hvalues' name hname.2).trans (hvalues name hname.1)

end Dressed

/-- The record of an entry as it was taken out, up to columns other than the given ones. -/
structure Copies (entry : Entry) (record : Record) (columns : List Column) : Prop where
  model : entry.record.model = record.model
  changed : entry.record.changed = record.changed
  values : ∀ column ∈ columns,
    entry.record.values.find? column.name = record.values.find? column.name

theorem copies_refl (entry : Entry) (columns : List Column) : Copies entry entry.record columns :=
  ⟨rfl, rfl, fun _ _ => rfl⟩

theorem Copies.isChanged (h : Copies entry record columns) (name : String) :
    entry.record.isChanged name = record.isChanged name := by
  unfold Record.isChanged
  rw [h.changed]

theorem keyOrdered_evaluate {default : DefaultValue}
    (hordered : ∀ value, default = .value value → value.KeyOrdered) (supply : Supply) :
    (default.evaluate supply).1.KeyOrdered := by
  cases default with
  | value value => exact hordered value rfl
  | shortCode => trivial
  | currentTime => trivial

/-! ## New rows -/

/-- The record reflects each column that is written for a new row, once its default is there. -/
theorem insertColumn_portrayed (hcompiled : record.model.Compiled find?)
    (hordered : ∀ column ∈ record.model.columns, ∀ value, column.default = some (.value value) →
      value.KeyOrdered) (h : start.Upheld env scope) (hentry : scope.entries[handle]? = some entry)
    (hstate : entry.state = .pending) (hcopies : Copies entry record [column])
    (hcolumn : column ∈ record.model.columns) (id : Int64) :
    (insertColumn handle record id column).Ends scope
      (fun written after => start.Upheld env after ∧ Dressed handle [column.name] scope after ∧
        written.1 = column.name ∧ ∀ new, after.entries[handle]? = some new →
          column.primaryKey = false → new.record.Reflects column written.2)
      (start.Upheld env) := by
  have hfaithful := h.mirrored.entries handle entry hentry
  have hvalue := hcopies.values column List.mem_cons_self
  have hcolumn' : column ∈ entry.record.model.columns := hcopies.model ▸ hcolumn
  have hsame : Dressed handle [column.name] scope scope := .of_same rfl handle _
  -- Where nothing is put into the record, it is the same afterwards.
  have hown : ∀ {stored : Value}, entry.record.Reflects column stored →
      ∀ new, scope.entries[handle]? = some new → column.primaryKey = false →
        new.record.Reflects column stored := by
    intro stored hreflects new hnew _
    obtain rfl := Option.some.inj (hentry.symm.trans hnew)
    exact hreflects
  unfold insertColumn
  by_cases hprimary : column.primaryKey = true
  · rw [if_pos hprimary]
    refine ScopeM.ends_pure ⟨h, hsame, rfl, ?_⟩
    intro new _ hdata
    rw [hprimary] at hdata
    cases hdata
  rw [if_neg hprimary]
  have hdata : column.primaryKey = false := Bool.eq_false_iff.2 hprimary
  by_cases hchanged : record.isChanged column.name = true
  · rw [if_pos hchanged]
    refine ScopeM.ends_lift_bind ?_ h
    intro value hget
    refine ScopeM.ends_lift_bind ?_ h
    intro stored hstored
    have hfound := hvalue.trans (Record.get_eq_ok.1 hget)
    obtain ⟨content, hreloads, hmirrors⟩ := Column.mirrors_of_bind hstored
      (hfaithful.whole.keyOrdered _ _ hfound)
    exact ScopeM.ends_pure ⟨h, hsame, rfl, hown ⟨value, content, hfound, hreloads, hmirrors⟩⟩
  rw [if_neg hchanged]
  cases hdefault : column.default with
  | some default =>
      have hsupplied : start.Upheld env
          { scope with supply := (default.evaluate scope.supply).2 } := h.of_same rfl rfl rfl
      have hevaluate : (evaluateDefault default).Ends scope
          (fun value after => value = (default.evaluate scope.supply).1 ∧
            after = { scope with supply := (default.evaluate scope.supply).2 })
          (start.Upheld env) := ⟨rfl, rfl⟩
      refine ScopeM.ends_bind hevaluate ?_
      rintro _ _ ⟨rfl, rfl⟩
      have hliteral : ∀ value, default = .value value → value.KeyOrdered := fun value heq =>
        hordered column hcolumn value (heq ▸ hdefault)
      have hvalueOrdered := keyOrdered_evaluate hliteral scope.supply
      generalize (default.evaluate scope.supply).1 = value at hvalueOrdered
      generalize (default.evaluate scope.supply).2 = supply at hsupplied
      refine ScopeM.ends_lift_bind ?_ hsupplied
      intro stored hstored
      obtain ⟨content, hreloads, hmirrors⟩ := Column.mirrors_of_bind hstored hvalueOrdered
      have hput : ∀ other, ({ scope with supply }.modifyRecord handle fun record =>
          record.putValue column.name value).entries[other]? = (scope.entries[other]?).map fun entry =>
            if handle = other then { entry with record := entry.record.putValue column.name value }
            else entry := fun other => getElem?_modifyRecord { scope with supply } handle _ other
      refine ScopeM.ends_modify_bind (ScopeM.ends_pure ⟨?_, ⟨?_, ?_⟩, rfl, ?_⟩)
      · refine hsupplied.modifyPending hentry hstate rfl (fun _ hid => hid) ?_
        exact (hsupplied.mirrored.entries handle entry hentry).putDefault (hcopies.model ▸ hcompiled)
          hstate hcolumn' hdata (by rw [hdefault]; exact Option.some_ne_none _) hvalueOrdered
      · intro other hne
        rw [hput]
        simp only [if_neg hne.symm, Option.map_id']
      · intro old hold
        refine ⟨old.record.putValue column.name value, ?_, rfl, rfl, rfl, ?_⟩
        · rw [hput, hold, Option.map_some, if_pos rfl]
        · intro name hname
          exact (Record.find?_putValue ..).trans (if_neg (by simpa using hname))
      · intro new hnew _
        rw [hput, hentry, Option.map_some, if_pos rfl] at hnew
        cases hnew
        exact ⟨value, content, (Record.find?_putValue ..).trans (if_pos rfl), hreloads, hmirrors⟩
  | none =>
      have hnull : entry.record.values.find? column.name = some .null := by
        refine hfaithful.unset hstate column hcolumn' hdata hdefault ?_
        rw [hcopies.isChanged]
        exact Bool.eq_false_iff.2 hchanged
      by_cases hnullable : column.nullable = true
      · simp only [if_pos hnullable]
        exact ScopeM.ends_pure ⟨h, hsame, rfl, hown ⟨.null, .null, hnull,
          column.reloads_null, .refl column _⟩⟩
      · simp only [if_neg hnullable]
        refine ScopeM.ends_lift_bind ?_ h
        intro stored hstored
        obtain ⟨content, hreloads, hmirrors⟩ := Column.mirrors_of_bind hstored trivial
        exact ScopeM.ends_pure ⟨h, hsame, rfl, hown ⟨.null, content, hnull, hreloads, hmirrors⟩⟩

theorem insertColumns_portrayed (hcompiled : record.model.Compiled find?)
    (hordered : ∀ column ∈ record.model.columns, ∀ value, column.default = some (.value value) →
      value.KeyOrdered) (hcolumns : ∀ column ∈ columns, column ∈ record.model.columns)
    (hdistinct : (columns.map (·.name)).Nodup) (h : start.Upheld env scope)
    (hentry : scope.entries[handle]? = some entry) (hstate : entry.state = .pending)
    (hcopies : Copies entry record columns) (id : Int64) :
    (insertColumns handle record id columns).Ends scope
      (fun written after => start.Upheld env after ∧
        Dressed handle (columns.map (·.name)) scope after ∧
        ∀ new, after.entries[handle]? = some new →
          List.Forall₂ (fun (column : Column) (pair : String × Value) => pair.1 = column.name ∧
            (column.primaryKey = false → new.record.Reflects column pair.2)) columns written)
      (start.Upheld env) := by
  induction columns generalizing scope entry with
  | nil => exact ScopeM.ends_pure ⟨h, .of_same rfl handle _, fun _ _ => .nil⟩
  | cons column rest ih =>
      obtain ⟨hnew, hrest⟩ := List.nodup_cons.1 hdistinct
      have hfirst : Copies entry record [column] := ⟨hcopies.model, hcopies.changed, by
        intro other hother
        obtain rfl := List.mem_singleton.1 hother
        exact hcopies.values other List.mem_cons_self⟩
      unfold insertColumns
      refine ScopeM.ends_bind (insertColumn_portrayed hcompiled hordered h hentry hstate hfirst
        (hcolumns column List.mem_cons_self) id) ?_
      rintro first middle ⟨hmiddle, hdressed, hname, hreflects⟩
      obtain ⟨dressed, hentry', hmodel, -, hchanged, hvalues⟩ := hdressed.own entry hentry
      have hcopies' : Copies { entry with record := dressed } record rest := by
        refine ⟨hmodel.trans hcopies.model, hchanged.trans hcopies.changed, ?_⟩
        intro other hother
        have hne : other.name ∉ [column.name] := by
          rw [List.mem_singleton]
          intro heq
          have hmem : other.name ∈ rest.map (·.name) := List.mem_map_of_mem hother
          rw [heq] at hmem
          exact hnew hmem
        exact (hvalues other.name hne).trans
          (hcopies.values other (List.mem_cons_of_mem _ hother))
      refine ScopeM.ends_bind (ih (fun other hother => hcolumns other (List.mem_cons_of_mem _ hother))
        hrest hmiddle hentry' hstate hcopies') ?_
      rintro others last ⟨hlast, hdressed', hothers⟩
      refine ScopeM.ends_pure ⟨hlast, hdressed.trans hdressed', ?_⟩
      intro new hnew'
      refine .cons ⟨hname, ?_⟩ (hothers new hnew')
      intro hdata
      -- The other columns have other names, so the value of the first one is still there.
      obtain ⟨value, content, hvalue, hreloads, hmirrors⟩ := hreflects _ hentry' hdata
      obtain ⟨final, hfinal, -, -, -, hkept⟩ := hdressed'.own _ hentry'
      obtain rfl := Option.some.inj (hnew'.symm.trans hfinal)
      exact ⟨value, content, (hkept column.name hnew).trans hvalue, hreloads, hmirrors⟩

/-! ## Portraits -/

/-- An image is that of a record, and the record reflects what it holds. -/
structure Portrait (record : Record) (image : RowImage) : Prop where
  model : image.model = record.model
  id : ∃ id, record.id = some id ∧ image.id = id.toUInt64
  reflects : ∀ row columns, image.content = some (row, columns) →
    ∀ column ∈ record.model.columns, column.primaryKey = false →
      record.Reflects column (storedColumn columns column.name)

theorem insertImage_portrayed (hcompiled : entry.record.model.Compiled find?)
    (hordered : ∀ column ∈ entry.record.model.columns, ∀ value,
      column.default = some (.value value) → value.KeyOrdered) (h : start.Upheld env scope)
    (hentry : scope.entries[handle]? = some entry) (hstate : entry.state = .pending) :
    (insertImage handle).Ends scope
      (fun image after => start.Upheld env after ∧
        Dressed handle (entry.record.model.columns.map (·.name)) scope after ∧
        ∀ new, after.entries[handle]? = some new → Portrait new.record image)
      (start.Upheld env) := by
  unfold insertImage
  refine ScopeM.ends_record_bind_of_some hentry ?_
  refine ScopeM.ends_lift_bind ?_ h
  intro id hid
  refine ScopeM.ends_bind (insertColumns_portrayed hcompiled hordered (fun _ hcolumn => hcolumn)
    hcompiled.columns_nodup h hentry hstate (copies_refl entry _) id) ?_
  rintro columns written ⟨hwritten, hdressed, hcolumns⟩
  refine ScopeM.ends_lift_bind ?_ hwritten
  intro data _
  have hnow : now.Ends written
      (fun _ after => start.Upheld env after ∧ after.entries = written.entries)
      (start.Upheld env) := ⟨hwritten.of_same rfl rfl rfl, rfl⟩
  refine ScopeM.ends_bind hnow ?_
  rintro time last ⟨hlast, hsame⟩
  refine ScopeM.ends_lift_bind ?_ hlast
  intro number hnumber
  obtain ⟨-, rfl⟩ := rowIdOf_eq_ok.1 hnumber
  -- Telling the time leaves all records.
  have hdressed' : Dressed handle (entry.record.model.columns.map (·.name)) scope last :=
    ⟨fun other hne => by rw [hsame, hdressed.others other hne],
      fun old hold => by rw [hsame]; exact hdressed.own old hold⟩
  refine ScopeM.ends_pure ⟨hlast, hdressed', ?_⟩
  intro new hnew
  rw [hsame] at hnew
  obtain ⟨dressed, hown, hmodel, hkey, -, -⟩ := hdressed.own entry hentry
  obtain rfl := Option.some.inj (hnew.symm.trans hown)
  refine ⟨hmodel.symm, ⟨id, hkey.trans (requireId_eq_ok.1 hid), rfl⟩, ?_⟩
  intro row content hcontent column hcolumn hdata
  cases hcontent
  have hall := hcolumns _ hnew
  have hcolumn' : column ∈ entry.record.model.columns := hmodel ▸ hcolumn
  exact @storedColumn_of_forall₂ (fun column stored =>
    column.primaryKey = false → dressed.Reflects column stored) _ _ hcompiled.columns_nodup hall
    column hcolumn' hdata

/-! ## Changed rows -/

theorem updateColumn_portrayed {id : Int64} {row : StoredRow} {existing : List (String × Value)}
    (h : scope.Faithful env entry) (hstate : entry.state = .persistent)
    (hid : entry.record.id = some id)
    (hrow : scope.visibleRow env entry.record.model.tableName id.toUInt64 = .ok (some row))
    (hholds : row.Holds existing) (hcolumn : column ∈ entry.record.model.columns)
    {written : String × Value} (hwritten : updateColumn entry.record id existing column = .ok written)
    (hdata : column.primaryKey = false) : entry.record.Reflects column written.2 := by
  unfold updateColumn at hwritten
  rw [if_neg (by rw [hdata]; exact Bool.false_ne_true)] at hwritten
  by_cases hchanged : entry.record.isChanged column.name = true
  · rw [if_pos hchanged] at hwritten
    obtain ⟨value, hget, hwritten⟩ := bind_eq_ok.1 hwritten
    obtain ⟨stored, hstored, hwritten⟩ := bind_eq_ok.1 hwritten
    cases hwritten
    have hfound := Record.get_eq_ok.1 hget
    obtain ⟨content, hreloads, hmirrors⟩ := Column.mirrors_of_bind hstored
      (h.whole.keyOrdered _ _ hfound)
    exact ⟨value, content, hfound, hreloads, hmirrors⟩
  · rw [if_neg hchanged] at hwritten
    cases hwritten
    exact h.reflects hstate id row existing hid hrow hholds column hcolumn hdata
      (Bool.eq_false_iff.2 hchanged)

theorem updateImage_portrayed (hregistry : env.registry.Consistent)
    (hcount : ∀ model ∈ env.registry.models, model.columns.length < 4294967296)
    (hanchored : scope.Anchored env deleted) (h : start.Upheld env scope)
    (hentry : scope.entries[handle]? = some entry) (hstate : entry.state = .persistent) :
    (updateImage env handle).Ends scope
      (fun image after => start.Upheld env after ∧ after.entries = scope.entries ∧
        Portrait entry.record image)
      (start.Upheld env) := by
  have hstanding := standing_of_entry hentry
  have hmodel := hanchored.rooted.registered handle _ hstanding
  obtain ⟨_, -, hcompiled⟩ := hregistry.mem_compiled hmodel
  unfold updateImage
  refine ScopeM.ends_record_bind_of_some hentry ?_
  refine ScopeM.ends_lift_bind ?_ h
  intro id hrequired
  have hid := requireId_eq_ok.1 hrequired
  refine ScopeM.ends_lift_bind ?_ h
  intro number hnumber
  obtain ⟨-, rfl⟩ := rowIdOf_eq_ok.1 hnumber
  have hlooked : ∀ after, after = scope ∨ after = { scope with consulted := true } →
      start.Upheld env after ∧ after.entries = scope.entries := by
    rintro _ (rfl | rfl)
    · exact ⟨h, rfl⟩
    · exact ⟨h.of_same rfl rfl rfl, rfl⟩
  refine ScopeM.ends_bind ((lookUpRow_cases scope env _ _).mono (fun _ _ hdone => hdone)
    fun _ hfailed => (hlooked _ hfailed).1) ?_
  rintro existing middle ⟨hmiddle, hvisible⟩
  obtain ⟨hupheld, hsame⟩ := hlooked middle hmiddle
  -- The record is stored, so its row is there.
  obtain ⟨key, row, hkey, hrow⟩ :=
    (hanchored.keyed.records handle _ hstanding).present (Or.inl hstate)
  obtain rfl : id = key := Option.some.inj (hid.symm.trans hkey)
  obtain rfl := Except.ok.inj (hvisible.symm.trans hrow)
  obtain ⟨stored, hwrote⟩ := hanchored.rows.written _ hmodel _ row hrow
  have hholds := hwrote.holds (hcount _ hmodel)
  refine ScopeM.ends_lift_bind ?_ hupheld
  intro existing hexisting
  obtain rfl := hholds.of_decodeRow (ofData_eq_ok.1 hexisting)
  refine ScopeM.ends_lift_bind ?_ hupheld
  intro columns hcolumns
  refine ScopeM.ends_lift_bind ?_ hupheld
  intro data _
  have hnow : now.Ends middle
      (fun _ after => start.Upheld env after ∧ after.entries = middle.entries)
      (start.Upheld env) := ⟨hupheld.of_same rfl rfl rfl, rfl⟩
  refine ScopeM.ends_bind hnow ?_
  rintro time last ⟨hlast, hsame'⟩
  refine ScopeM.ends_pure ⟨hlast, hsame'.trans hsame, rfl, ⟨id, hid, rfl⟩, ?_⟩
  intro row' content hcontent column hcolumn hdata
  cases hcontent
  have hfaithful := h.mirrored.entries handle entry hentry
  have hall : List.Forall₂ (fun (column : Column) (pair : String × Value) => pair.1 = column.name ∧
      (column.primaryKey = false → entry.record.Reflects column pair.2))
      entry.record.model.columns columns := by
    refine ((List.forall₂_and_left _ _).2 ⟨fun _ hmem => hmem, mapM_eq_ok.1 hcolumns⟩).imp ?_
    rintro other pair ⟨hmem, hpair⟩
    exact ⟨(updateColumn_written hpair).1, updateColumn_portrayed hfaithful hstate hid hrow hholds
      hmem hpair⟩
  exact @storedColumn_of_forall₂ (fun column stored =>
    column.primaryKey = false → entry.record.Reflects column stored) _ _ hcompiled.columns_nodup hall
    column hcolumn hdata

theorem deleteImage_portrayed (h : start.Upheld env scope)
    (hentry : scope.entries[handle]? = some entry) :
    (deleteImage handle).Ends scope
      (fun image after => start.Upheld env after ∧ after.entries = scope.entries ∧
        Portrait entry.record image)
      (start.Upheld env) := by
  unfold deleteImage
  refine ScopeM.ends_record_bind_of_some hentry ?_
  refine ScopeM.ends_lift_bind ?_ h
  intro id hid
  refine ScopeM.ends_lift_bind ?_ h
  intro number hnumber
  obtain ⟨-, rfl⟩ := rowIdOf_eq_ok.1 hnumber
  refine ScopeM.ends_pure ⟨h, rfl, rfl, ⟨id, requireId_eq_ok.1 hid, rfl⟩, ?_⟩
  intro _ _ hcontent
  cases hcontent

/-! ## All images -/

/-- A record has an image that portrays it, or needs none. -/
inductive Portrayed (scope : Scope) (handle : Handle) : Option RowImage → Prop where
  | drawn {entry : Entry} {image : RowImage} : scope.entries[handle]? = some entry →
      Portrait entry.record image → Portrayed scope handle (some image)
  | needless {entry : Entry} : scope.entries[handle]? = some entry → entry.state ≠ .pending →
      (entry.state = .persistent → ∀ name, entry.record.isChanged name = false) →
      Portrayed scope handle none

theorem Portrayed.congr {image : Option RowImage} (h : before.Portrayed handle image)
    (hsame : after.entries[handle]? = before.entries[handle]?) : after.Portrayed handle image := by
  cases h with
  | drawn hentry hportrait => exact .drawn (hsame.trans hentry) hportrait
  | needless hentry hstate hunmarked => exact .needless (hsame.trans hentry) hstate hunmarked

theorem image?_portrayed (hregistry : env.registry.Consistent)
    (hcount : ∀ model ∈ env.registry.models, model.columns.length < 4294967296)
    (hdefaults : env.registry.OrderedDefaults) (hanchored : scope.Anchored env deleted)
    (h : start.Upheld env scope) (handle : Handle) :
    (image? env handle).Ends scope
      (fun image after => start.Upheld env after ∧ after.Portrayed handle image ∧
        ∀ other : Handle, other ≠ handle → after.entries[other]? = scope.entries[other]?)
      (start.Upheld env) := by
  unfold image?
  refine ScopeM.ends_entry_bind ?_ h
  intro entry hentry
  cases hstate : entry.state with
  | pending =>
      have hmodel := hanchored.rooted.mem_models hentry
      obtain ⟨_, -, hcompiled⟩ := hregistry.mem_compiled hmodel
      refine ScopeM.ends_bind (insertImage_portrayed hcompiled (hdefaults _ hmodel) h hentry hstate) ?_
      rintro image after ⟨hafter, hdressed, hportrait⟩
      obtain ⟨record, hnew, -⟩ := hdressed.own entry hentry
      exact ScopeM.ends_pure ⟨hafter, .drawn hnew (hportrait _ hnew), hdressed.others⟩
  | persistent =>
      by_cases hdirty : entry.record.isDirty = true
      · simp only [hdirty, if_true]
        refine ScopeM.ends_bind (updateImage_portrayed hregistry hcount hanchored h hentry hstate) ?_
        rintro image after ⟨hafter, hsame, hportrait⟩
        exact ScopeM.ends_pure ⟨hafter, .drawn (hsame ▸ hentry) hportrait, fun _ _ => by rw [hsame]⟩
      · simp only [hdirty]
        refine ScopeM.ends_pure ⟨h, .needless hentry ?_ ?_, fun _ _ => rfl⟩
        · rw [hstate]
          decide
        · exact fun _ => Record.isChanged_of_clean (Bool.eq_false_iff.2 hdirty)
  | deleted =>
      refine ScopeM.ends_bind (deleteImage_portrayed h hentry) ?_
      rintro image after ⟨hafter, hsame, hportrait⟩
      exact ScopeM.ends_pure ⟨hafter, .drawn (hsame ▸ hentry) hportrait, fun _ _ => by rw [hsame]⟩
  | removed =>
      refine ScopeM.ends_pure ⟨h, .needless hentry ?_ ?_, fun _ _ => rfl⟩
      · rw [hstate]
        decide
      · intro hpersistent
        rw [hstate] at hpersistent
        cases hpersistent

/-- Each image portrays a record, and each record is portrayed that needs it. -/
structure Portraits (scope : Scope) (handles : List Handle) (images : List RowImage) : Prop where
  made : ∀ image ∈ images, ∃ handle, scope.Portrayed handle (some image)
  complete : ∀ handle ∈ handles,
    scope.Portrayed handle none ∨ ∃ image ∈ images, scope.Portrayed handle (some image)

theorem Portraits.cons {handles : List Handle} {image : Option RowImage}
    (h : scope.Portraits handles images) (hfirst : scope.Portrayed handle image) :
    scope.Portraits (handle :: handles) (image.toList ++ images) where
  made other hother := by
    rcases List.mem_append.1 hother with hnew | hrest
    · obtain rfl := Option.mem_toList.1 hnew
      exact ⟨handle, hfirst⟩
    · exact h.made other hrest
  complete place hplace := by
    rcases List.mem_cons.1 hplace with rfl | hrest
    · cases image with
      | none => exact Or.inl hfirst
      | some image => exact Or.inr ⟨image, List.mem_append_left _ (by simp), hfirst⟩
    · refine (h.complete place hrest).imp_right ?_
      rintro ⟨found, hfound, hportrayed⟩
      exact ⟨found, List.mem_append_right _ hfound, hportrayed⟩

theorem nodup_handles (scope : Scope) : scope.handles.Nodup := List.nodup_range

theorem imagesOf_portrayed (hregistry : env.registry.Consistent)
    (hcount : ∀ model ∈ env.registry.models, model.columns.length < 4294967296)
    (hdefaults : env.registry.OrderedDefaults) (hanchored : scope.Anchored env deleted)
    (h : start.Upheld env scope) {handles : List Handle} (hdistinct : handles.Nodup) :
    (imagesOf env handles).Ends scope
      (fun images after => start.Upheld env after ∧ after.Portraits handles images ∧
        ∀ other : Handle, other ∉ handles → after.entries[other]? = scope.entries[other]?)
      (start.Upheld env) := by
  induction handles generalizing scope with
  | nil =>
      refine ScopeM.ends_pure ⟨h, ⟨?_, ?_⟩, fun _ _ => rfl⟩
      · intro _ hnone
        cases hnone
      · intro _ hnone
        cases hnone
  | cons handle rest ih =>
      obtain ⟨hnew, hrest⟩ := List.nodup_cons.1 hdistinct
      unfold imagesOf
      refine ScopeM.ends_bind (((image?_portrayed hregistry hcount hdefaults hanchored h handle).and
        (image?_made env scope handle)).mono (fun _ _ hdone => hdone) fun _ hfailed => hfailed.1) ?_
      rintro image middle ⟨⟨hmiddle, hfirst, hothers⟩, hsteady, -⟩
      have hrestEnds := ih (hanchored.move hregistry hcount (.steady hsteady)) hmiddle hrest
      -- The images that follow are for other records.
      have hcons : ∀ (images : List RowImage) (last : Scope), last.Portraits rest images →
          (∀ other : Handle, other ∉ rest → last.entries[other]? = middle.entries[other]?) →
          last.Portraits (handle :: rest) (image.toList ++ images) ∧
            ∀ other : Handle, other ∉ handle :: rest → last.entries[other]? = scope.entries[other]? := by
        intro images last hportraits hkept
        refine ⟨hportraits.cons (hfirst.congr (hkept handle hnew)), ?_⟩
        intro other hother
        rw [List.mem_cons, not_or] at hother
        exact (hkept other hother.2).trans (hothers other hother.1)
      cases image with
      | some image =>
          refine ScopeM.ends_bind hrestEnds ?_
          rintro images last ⟨hlast, hportraits, hkept⟩
          exact ScopeM.ends_pure ⟨hlast, hcons images last hportraits hkept⟩
      | none =>
          refine hrestEnds.mono ?_ fun _ hfailed => hfailed
          rintro images last ⟨hlast, hportraits, hkept⟩
          exact ⟨hlast, hcons images last hportraits hkept⟩

/-! ## Settling -/

/-- After settling, a record that was portrayed reflects its row, and so does one that needed no
image. -/
theorem Mirrored.settle (hregistry : env.registry.Consistent)
    (hcount : ∀ model ∈ env.registry.models, model.columns.length < 4294967296)
    (hanchored : scope.Anchored env deleted) (h : scope.Mirrored env)
    (himages : Images env scope scope.handles images)
    (hportraits : scope.Portraits scope.handles images) : (settle images scope).Mirrored env where
  links handle column target hlink :=
    (carries_settle images scope).isReference (h.links handle column target hlink)
  entries handle new hnew := by
    obtain ⟨entry, hentry, rfl⟩ := of_getElem?_settle hnew
    have hfaithful := h.entries handle entry hentry
    have hstanding := standing_of_entry hentry
    constructor
    case whole =>
      unfold settleEntry
      split
      · exact ⟨hfaithful.whole.complete, hfaithful.whole.keyOrdered, hfaithful.whole.keyed⟩
      · exact hfaithful.whole
    case unset =>
      intro hstate
      unfold settleEntry at hstate
      cases hcase : entry.state <;> simp [hcase, Lifecycle.afterFlush] at hstate
    case reflects =>
      intro hstate id row columns hid hrow hholds column hcolumn hdata _
      rw [settleEntry_model] at hrow hcolumn
      rw [settleEntry_id] at hid
      have hvalues : (settleEntry entry).record.values = entry.record.values := by
        unfold settleEntry
        split <;> rfl
      show ∃ value content, (settleEntry entry).record.values.find? column.name = some value ∧ _
      rw [hvalues]
      change entry.record.Reflects column (storedColumn columns column.name)
      rcases find?_foldl_stageImage images scope.staged (entry.record.model.tableName, id.toUInt64) with
        ⟨image, himage, hkey, hfind⟩ | ⟨hother, hfind⟩
      · -- The image for the row is the portrait of the record.
        obtain ⟨place, hportrayed⟩ := hportraits.made image himage
        cases hportrayed with
        | @drawn other _ hplace hportrait =>
            obtain ⟨key, hkey', hnumber⟩ := hportrait.id
            unfold imageKey at hkey
            rw [hportrait.model, hnumber, Prod.mk.injEq] at hkey
            obtain rfl := hanchored.keyed.handle_unique hregistry hanchored.rooted hstanding
              (standing_of_entry hplace) hid hkey' hkey.1 hkey.2
            obtain rfl := Option.some.inj (hentry.symm.trans hplace)
            have hstaged : (Scope.settle images scope).visibleRow env entry.record.model.tableName
                id.toUInt64 = .ok (image.content.map (·.1)) := visibleRow_of_staged hfind
            rw [hrow] at hstaged
            obtain ⟨⟨made, written⟩, hcontent, rfl⟩ :=
              Option.map_eq_some_iff.1 (Except.ok.inj hstaged).symm
            obtain ⟨hregistered, hwrote⟩ :=
              himages.wrote hregistry hcount hanchored.rooted hanchored.rows image himage
            have hback := (hwrote made written hcontent).holds (hcount _ hregistered)
            obtain rfl := hholds.unique hback
            exact hportrait.reflects made columns hcontent column hcolumn hdata
      · -- There is no image for the row, so the record is stored and not marked.
        rcases hportraits.complete handle (List.mem_range.2 (lt_of_standing hstanding)) with
          hnone | ⟨image, himage, hportrayed⟩
        · cases hnone with
          | @needless other hplace hpending hunmarked =>
              obtain rfl := Option.some.inj (hentry.symm.trans hplace)
              have hpersistent : entry.state = .persistent := by
                cases hcase : entry.state with
                | persistent => rfl
                | pending => exact absurd hcase hpending
                | deleted | removed => simp [settleEntry, hcase, Lifecycle.afterFlush] at hstate
              exact hfaithful.reflects hpersistent id row columns hid
                ((visibleRow_congr hfind).symm.trans hrow) hholds column hcolumn hdata
                (hunmarked hpersistent column.name)
        · -- The image of the record would be one for its row.
          cases hportrayed with
          | @drawn other _ hplace hportrait =>
              obtain rfl := Option.some.inj (hentry.symm.trans hplace)
              obtain ⟨key, hkey, hnumber⟩ := hportrait.id
              obtain rfl := Option.some.inj (hid.symm.trans hkey)
              exact absurd (by rw [imageKey, hportrait.model, hnumber]) (hother image himage)

theorem KeepsStored.settle (h : start.KeepsStored scope) (images : List RowImage) :
    start.KeepsStored (settle images scope) := by
  intro handle entry hentry hstate
  obtain ⟨record, hrecord, hmodel, hid, hvalues⟩ := h handle entry hentry hstate
  refine ⟨record.clearChanges, ?_, hmodel, hid, hvalues⟩
  rw [getElem?_settle, hrecord, Option.map_some, settleEntry]
  simp only [hstate]
  rfl

/-- A flush keeps a scope mirrored, however far it comes. -/
theorem flush_upheld (hregistry : env.registry.Consistent)
    (hcount : ∀ model ∈ env.registry.models, model.columns.length < 4294967296)
    (hdefaults : env.registry.OrderedDefaults) (hanchored : scope.Anchored env deleted)
    (h : scope.Mirrored env) :
    (flush env).Ends scope (fun _ after => scope.Upheld env after ∧ after.Settled)
      (scope.Upheld env) := by
  have hreaches : ∀ {middle : Scope}, scope.Reaches env .inside middle →
      middle.Anchored env deleted := fun hmiddle => hanchored.reaches hregistry hcount hmiddle
  unfold flush
  refine ScopeM.ends_bind (((assignIds_upheld hregistry hanchored.rooted h).and
    (@assignIds_reaches env .inside scope hanchored.rooted scope Relation.ReflTransGen.refl)).mono
      (fun _ _ hdone => hdone) fun _ hfailed => hfailed.1) ?_
  rintro _ numbered ⟨hnumbered, hkeys⟩
  refine ScopeM.ends_bind (((resolveLinks_upheld hregistry (hreaches hkeys).rooted hnumbered).and
    (resolveLinks_steady env numbered)).mono (fun _ _ hdone => hdone) fun _ hfailed => hfailed.1) ?_
  rintro _ filled ⟨hfilled, hsteady⟩
  have hlinks := reaches_steady hkeys hsteady
  unfold rowImages
  refine ScopeM.ends_bind (ScopeM.ends_get_bind (((imagesOf_portrayed hregistry hcount hdefaults
    (hreaches hlinks) hfilled filled.nodup_handles).and (imagesOf_made env filled filled.handles)).mono
      (fun _ _ hdone => hdone) fun _ hfailed => hfailed.1)) ?_
  rintro images imaged ⟨⟨himaged, hportraits, -⟩, hsteady', himages⟩
  refine ScopeM.ends_get_bind (ScopeM.ends_lift_bind ?_ himaged)
  intro _ _
  rw [← hsteady'.handles_eq] at hportraits himages
  have hlast := hreaches (reaches_steady hlinks hsteady')
  exact ScopeM.ends_modify ⟨⟨himaged.mirrored.settle hregistry hcount hlast himages hportraits,
    himaged.stored.settle images⟩, settled_settle images imaged⟩

end Scope

end RecordStore
