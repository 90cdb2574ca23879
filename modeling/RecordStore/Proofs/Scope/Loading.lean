import RecordStore.Proofs.Scope.Settling
import RecordStore.Proofs.Scope.Staging

/-!
# Loading records

A visible row that no record stands for is loaded as a record whose columns hold what was
loaded from their stored forms (`Record.find?_loaded`).  Loading a row fails only where a time of day in it
cannot be read (`Model.CanLoad`), and keeps a scope sound (`Scope.materialize_ends`); so do all ways to look
records up.
-/

namespace RecordStore

/-! ## Values of loaded records -/

/-- What stands beside a member of a list. -/
theorem exists_of_mem_forall₂ {α β : Type} {related : α → β → Prop} {xs : List α} {ys : List β}
    (h : List.Forall₂ related xs ys) {x : α} (hmem : x ∈ xs) : ∃ y ∈ ys, related x y := by
  induction h with
  | nil => cases hmem
  | @cons _ y _ _ hfirst _ ih =>
      rcases List.mem_cons.1 hmem with rfl | hrest
      · exact ⟨y, List.mem_cons_self, hfirst⟩
      · rcases ih hrest with ⟨later, hlater, hrelated⟩
        exact ⟨later, List.mem_cons_of_mem _ hlater, hrelated⟩

theorem exists_forall₂ {α β : Type} {related : α → β → Prop} {xs : List α}
    (h : ∀ x ∈ xs, ∃ y, related x y) : ∃ ys, List.Forall₂ related xs ys := by
  induction xs with
  | nil => exact ⟨[], .nil⟩
  | cons x xs ih =>
      obtain ⟨y, hy⟩ := h x List.mem_cons_self
      obtain ⟨ys, hys⟩ := ih fun other hother => h other (List.mem_cons_of_mem _ hother)
      exact ⟨y :: ys, .cons hy hys⟩

theorem mem_storedColumn {columns : List (String × Value)} {name : String}
    (hname : name ∈ columns.map (·.1)) : (name, storedColumn columns name) ∈ columns := by
  induction columns with
  | nil => cases hname
  | cons entry rest ih =>
      rw [storedColumn_cons]
      by_cases hsame : entry.1 = name
      · rw [if_pos hsame, ← hsame]
        exact List.mem_cons_self
      · rw [if_neg hsame]
        rw [List.map_cons] at hname
        rcases List.mem_cons.1 hname with heq | hrest
        · exact absurd heq.symm hsame
        · exact List.mem_cons_of_mem _ (ih hrest)

/-- The value that a stored column is loaded as. -/
def LoadedAs (model : Model) (stored value : String × Value) : Prop :=
  value.1 = stored.1 ∧ ∃ column, model.column? stored.1 = some column ∧
    column.load stored.2 = .ok value.2

namespace LoadedAs

variable {model : Model} {columns loaded : List (String × Value)}

theorem names_eq (h : List.Forall₂ (LoadedAs model) columns loaded) :
    loaded.map (·.1) = columns.map (·.1) := by
  induction h with
  | nil => rfl
  | cons hfirst _ ih => rw [List.map_cons, List.map_cons, hfirst.1, ih]

end LoadedAs

/-- Columns that a model has are loaded where each of them is. -/
theorem foldlM_loadColumn_iff {model : Model} {columns : List (String × Value)}
    (hfound : ∀ entry ∈ columns, ∃ column, model.column? entry.1 = some column)
    {start result : List (String × Value)} :
    columns.foldlM (Scope.loadColumn model) start = .ok result ↔
      ∃ loaded, result = start ++ loaded ∧ List.Forall₂ (LoadedAs model) columns loaded := by
  induction columns generalizing start with
  | nil =>
      constructor
      · intro h
        cases h
        exact ⟨[], (List.append_nil _).symm, .nil⟩
      · rintro ⟨loaded, rfl, hall⟩
        cases hall
        rw [List.append_nil]
        rfl
  | cons entry rest ih =>
      obtain ⟨column, hcolumn⟩ := hfound entry List.mem_cons_self
      have hstep : ∀ next, Scope.loadColumn model start entry = .ok next ↔
          ∃ value, column.load entry.2 = .ok value ∧ next = start ++ [(entry.1, value)] := by
        intro next
        unfold Scope.loadColumn
        simp only [hcolumn]
        rw [bind_eq_ok]
        exact exists_congr fun value => and_congr_right' (pure_eq_ok.trans eq_comm)
      rw [List.foldlM_cons, bind_eq_ok]
      have hrest := fun start' => @ih (fun other hother => hfound other (List.mem_cons_of_mem _ hother)) start'
      constructor
      · rintro ⟨next, hnext, hmore⟩
        obtain ⟨value, hload, rfl⟩ := (hstep next).1 hnext
        obtain ⟨loaded, rfl, hall⟩ := (hrest _).1 hmore
        exact ⟨(entry.1, value) :: loaded, List.append_assoc .., .cons ⟨rfl, column, hcolumn, hload⟩ hall⟩
      · rintro ⟨loaded, rfl, hall⟩
        cases hall with
        | @cons _ first _ others hfirst hothers =>
            obtain ⟨name, value⟩ := first
            obtain ⟨hname, found, hsame, hload⟩ := hfirst
            obtain rfl := Option.some.inj (hcolumn.symm.trans hsame)
            change name = entry.1 at hname
            subst hname
            refine ⟨_, (hstep _).2 ⟨value, hload, rfl⟩, (hrest _).2 ⟨others, ?_, hothers⟩⟩
            rw [List.append_assoc, List.singleton_append]

/-- A record can be made of a row: the row is read, and each of its columns is loaded. -/
def Model.CanLoad (model : Model) (row : StoredRow) : Prop :=
  ∃ columns loaded, decodeRow row.data = .ok columns ∧
    columns.foldlM (Scope.loadColumn model) [] = .ok loaded

instance (model : Model) (row : StoredRow) : Decidable (model.CanLoad row) :=
  decidable_of_iff (∃ columns ∈ (decodeRow row.data).toOption,
    (columns.foldlM (Scope.loadColumn model) []).toOption.isSome = true) <| by
      unfold Model.CanLoad
      simp only [Option.mem_def, toOption_eq_some, Option.isSome_iff_exists, exists_and_left]

section

variable {find? : String → Option Model} {model : Model} {row : StoredRow}
  {columns : List (String × Value)}

theorem Model.Fits.column?_eq (hfits : model.Fits columns) (hcompiled : model.Compiled find?) :
    ∀ entry ∈ columns, ∃ column, model.column? entry.1 = some column := by
  intro entry hentry
  have hname : entry.1 ∈ model.columns.map (·.name) := by
    rw [← hfits.names_eq]
    exact List.mem_map_of_mem hentry
  obtain ⟨column, hcolumn, hsame⟩ := List.mem_map.1 hname
  rw [← hsame]
  exact ⟨column, hcompiled.column?_eq hcolumn⟩

/-- A record can be made of a row of the model exactly if all times of day that stand in the row can be read
and each of the stored forms is loaded. -/
theorem Model.canLoad_iff (hcompiled : model.Compiled find?) (hholds : row.Holds columns)
    (hfits : model.Fits columns) :
    model.CanLoad row ↔ ∀ column ∈ model.columns, (storedColumn columns column.name).Readable ∧
      ∃ value, column.load (storedColumn columns column.name) = .ok value := by
  have hdistinct : (columns.map (·.1)).Nodup := by
    rw [hfits.names_eq]
    exact hcompiled.columns_nodup
  have hfound := hfits.column?_eq hcompiled
  constructor
  · rintro ⟨others, loaded, hread, hloaded⟩
    obtain ⟨hreadable, rfl⟩ := hholds.decodeRow_iff.1 hread
    obtain ⟨_, rfl, hall⟩ := (foldlM_loadColumn_iff hfound).1 hloaded
    intro column hcolumn
    have hmem : (column.name, storedColumn others column.name) ∈ others := by
      refine mem_storedColumn ?_
      rw [hfits.names_eq]
      exact List.mem_map_of_mem hcolumn
    obtain ⟨⟨_, value⟩, -, -, other, hother, hload⟩ := exists_of_mem_forall₂ hall hmem
    rw [hcompiled.column?_eq hcolumn] at hother
    cases hother
    exact ⟨hreadable _ hmem, value, hload⟩
  · intro h
    -- Every column of the row is one of the model, under a name of its own.
    have hentry : ∀ entry ∈ columns, ∃ column ∈ model.columns,
        column.name = entry.1 ∧ storedColumn columns column.name = entry.2 := by
      intro entry hentry
      have hname : entry.1 ∈ model.columns.map (·.name) := by
        rw [← hfits.names_eq]
        exact List.mem_map_of_mem hentry
      obtain ⟨column, hcolumn, hsame⟩ := List.mem_map.1 hname
      refine ⟨column, hcolumn, hsame, ?_⟩
      rw [hsame]
      have hpair := List.inj_on_of_nodup_map hdistinct
        (mem_storedColumn (List.mem_map_of_mem hentry)) hentry rfl
      exact congrArg Prod.snd hpair
    have hloads : ∀ entry ∈ columns, ∃ loaded, LoadedAs model entry loaded := by
      intro entry hmem
      obtain ⟨column, hcolumn, hname, hstored⟩ := hentry entry hmem
      obtain ⟨-, value, hload⟩ := h column hcolumn
      rw [hstored] at hload
      refine ⟨(entry.1, value), rfl, column, ?_, hload⟩
      rw [← hname]
      exact hcompiled.column?_eq hcolumn
    obtain ⟨loaded, hall⟩ := exists_forall₂ hloads
    refine ⟨columns, loaded, hholds.decodeRow_eq ?_,
      (foldlM_loadColumn_iff hfound).2 ⟨loaded, rfl, hall⟩⟩
    intro entry hmem
    obtain ⟨column, hcolumn, -, hstored⟩ := hentry entry hmem
    rw [← hstored]
    exact (h column hcolumn).1

/-- A record can be made of a row of the model exactly if every value that was bound to a stored form in it
can be read. -/
theorem Model.canLoad_iff_bound (hcompiled : model.Compiled find?) (hholds : row.Holds columns)
    (hfits : model.Fits columns) :
    model.CanLoad row ↔ ∀ column ∈ model.columns, ∀ value,
      column.bind model.tableName value = .ok (storedColumn columns column.name) → value.Readable := by
  rw [Model.canLoad_iff hcompiled hholds hfits]
  exact forall₂_congr fun column hcolumn =>
    (hfits.admits_column hcompiled.columns_nodup hcolumn).loads_iff

end

namespace Record

theorem restore_frame (record : Record) (entry : String × Value) :
    (record.restore entry).model = record.model ∧ (record.restore entry).changed = record.changed ∧
      ∀ name, (record.restore entry).values.contains name = record.values.contains name := by
  unfold restore
  by_cases hknown : record.values.contains entry.1 = true
  · rw [if_pos hknown]
    refine ⟨rfl, rfl, ?_⟩
    intro name
    unfold SortedMap.contains
    rw [find?_putValue]
    by_cases hname : name = entry.1
    · rw [if_pos hname, hname]
      exact hknown.symm
    · rw [if_neg hname]
  · rw [if_neg hknown]
    exact ⟨rfl, rfl, fun _ => rfl⟩

theorem foldl_restore_frame (loaded : List (String × Value)) (record : Record) :
    (loaded.foldl restore record).model = record.model ∧
      (loaded.foldl restore record).changed = record.changed := by
  induction loaded generalizing record with
  | nil => exact ⟨rfl, rfl⟩
  | cons entry rest ih =>
      rcases restore_frame record entry with ⟨hmodel, hchanged, -⟩
      rw [List.foldl_cons, ← hmodel, ← hchanged]
      exact ih _

theorem find?_foldl_restore_of_not_mem {loaded : List (String × Value)} {name : String}
    (hname : name ∉ loaded.map (·.1)) (record : Record) :
    (loaded.foldl restore record).values.find? name = record.values.find? name := by
  induction loaded generalizing record with
  | nil => rfl
  | cons entry rest ih =>
      rw [List.map_cons, List.mem_cons, not_or] at hname
      rw [List.foldl_cons, ih hname.2]
      unfold restore
      by_cases hknown : record.values.contains entry.1 = true
      · rw [if_pos hknown, find?_putValue, if_neg hname.1]
      · rw [if_neg hknown]

theorem find?_foldl_restore {loaded : List (String × Value)} (hdistinct : (loaded.map (·.1)).Nodup)
    {record : Record} (hknown : ∀ entry ∈ loaded, record.values.contains entry.1 = true)
    {entry : String × Value} (hmem : entry ∈ loaded) :
    (loaded.foldl restore record).values.find? entry.1 = some entry.2 := by
  induction loaded generalizing record with
  | nil => cases hmem
  | cons first rest ih =>
      rcases List.nodup_cons.1 hdistinct with ⟨hnew, hrest⟩
      rw [List.foldl_cons]
      rcases List.mem_cons.1 hmem with rfl | hlater
      · rw [find?_foldl_restore_of_not_mem hnew]
        unfold restore
        rw [if_pos (hknown entry List.mem_cons_self), find?_putValue, if_pos rfl]
      · refine ih hrest ?_ hlater
        intro other hother
        rw [(restore_frame record first).2.2]
        exact hknown other (List.mem_cons_of_mem _ hother)

theorem loaded_model (model : Model) (collections : List String) (id : Int64)
    (values : List (String × Value)) : (loaded model collections id values).model = model := by
  unfold loaded
  rw [assignId_model, (foldl_restore_frame values _).1]
  rfl

theorem loaded_id (model : Model) (collections : List String) (id : Int64)
    (values : List (String × Value)) : (loaded model collections id values).id = some id :=
  assignId_id _ id

theorem loaded_changed (model : Model) (collections : List String) (id : Int64)
    (values : List (String × Value)) : (loaded model collections id values).changed = ∅ := by
  unfold loaded
  rw [assignId_changed, (foldl_restore_frame values _).2]
  rfl

/-- A column of a loaded record, other than the key, holds what was loaded from its stored form. -/
theorem find?_loaded_of_ne {find? : String → Option Model} {model : Model}
    (hcompiled : model.Compiled find?)
    {columns loaded : List (String × Value)} (hfits : model.Fits columns)
    (hloaded : List.Forall₂ (LoadedAs model) columns loaded) (collections : List String)
    (id : Int64) {column : Column} (hcolumn : column ∈ model.columns)
    (hother : ∀ key, model.primaryKey? = some key → column.name ≠ key.name) :
    ∃ value, (Record.loaded model collections id loaded).values.find? column.name = some value ∧
      column.load (storedColumn columns column.name) = .ok value := by
  have hnames : loaded.map (·.1) = model.columns.map (·.name) :=
    (LoadedAs.names_eq hloaded).trans hfits.names_eq
  have hname : column.name ∈ columns.map (·.1) := by
    rw [hfits.names_eq]
    exact List.mem_map_of_mem hcolumn
  -- The loaded value that stands beside the stored form of the column.
  rcases exists_of_mem_forall₂ hloaded (mem_storedColumn hname) with
    ⟨⟨name, value⟩, hmem, hsame, other, hfound, hload⟩
  change name = column.name at hsame
  subst hsame
  rw [hcompiled.column?_eq hcolumn] at hfound
  cases hfound
  refine ⟨value, ?_, hload⟩
  unfold Record.loaded
  rw [find?_assignId]
  · refine find?_foldl_restore ?_ ?_ hmem
    · rw [hnames]
      exact hcompiled.columns_nodup
    · intro entry hentry
      unfold SortedMap.contains
      refine Entries.isSome_find?_ofList ?_
      rw [List.map_map]
      show entry.1 ∈ model.columns.map (·.name)
      rw [← hnames]
      exact List.mem_map_of_mem hentry
  · intro key hkey
    rw [(foldl_restore_frame loaded (new model collections)).1] at hkey
    exact hother key hkey

theorem find?_loaded {find? : String → Option Model} {model : Model}
    (hcompiled : model.Compiled find?)
    {columns loaded : List (String × Value)} (hfits : model.Fits columns)
    (hloaded : List.Forall₂ (LoadedAs model) columns loaded) (collections : List String)
    (id : Int64) {column : Column} (hcolumn : column ∈ model.columns)
    (hdata : column.primaryKey = false) :
    ∃ value, (Record.loaded model collections id loaded).values.find? column.name = some value ∧
      column.load (storedColumn columns column.name) = .ok value :=
  find?_loaded_of_ne hcompiled hfits hloaded collections id hcolumn
    fun _ hkey => hcompiled.name_ne_key hcolumn hdata hkey

end Record

namespace Scope

variable {env : Environment} {history : History} {scope : Scope} {handle : Handle} {model : Model}

/-! ## One more record -/

/-- The scope with one more record, and with other keys. -/
def appendAs (scope : Scope) (entry : Entry) (identity : SortedMap (String × Int64) Handle) :
    Scope :=
  { scope.append entry with identity }

theorem getElem?_appendAs {entry old : Entry} {identity : SortedMap (String × Int64) Handle} :
    (scope.appendAs entry identity).entries[handle]? = some old ↔
      scope.entries[handle]? = some old ∨ handle = scope.entries.length ∧ entry = old :=
  getElem?_snoc_eq_some_iff

theorem carries_appendAs (scope : Scope) (new : Entry)
    (identity : SortedMap (String × Int64) Handle) :
    scope.Carries (scope.appendAs new identity) := by
  intro handle entry hentry
  exact ⟨entry, getElem?_appendAs.2 (Or.inl hentry), rfl, fun id hid => hid⟩

/-- A new record of a registered model comes at the end. -/
theorem create_cases (env : Environment) (scope : Scope) (name : String) :
    (create env name).Ends scope
      (fun _ after => ∃ model, env.registry.model name = .ok model ∧ after = scope.appendAs
        { record := .new model (env.registry.collectionNames name), state := .pending } scope.identity)
      (fun after => after = scope) := by
  unfold create
  refine ScopeM.ends_lift_bind ?_ rfl
  intro record hrecord
  unfold Registry.instantiate at hrecord
  obtain ⟨model, hmodel, hnew⟩ := bind_eq_ok.1 hrecord
  cases pure_eq_ok.1 hnew
  exact ⟨model, hmodel, rfl⟩

/-- A record comes at the end, or takes the place of the one that stood for its row. -/
inductive Adds (scope : Scope) (record : Record) : Scope → Prop where
  | enter : record.id = none →
      Adds scope record (scope.appendAs { record, state := .pending } scope.identity)
  | adopt (id : Int64) : record.id = some id → scope.identity.find? (record.modelName, id) = none →
      Adds scope record (scope.appendAs { record, state := .persistent }
        (scope.identity.insert (record.modelName, id) scope.entries.length))
  | replace (id : Int64) (handle : Handle) : record.id = some id →
      scope.identity.find? (record.modelName, id) = some handle →
      Adds scope record (scope.modifyRecord handle fun _ => record)

theorem add_cases (scope : Scope) (record : Record) :
    (add record).Ends scope (fun _ => scope.Adds record) (fun _ => False) := by
  unfold add
  cases hid : record.id with
  | none => exact Adds.enter hid
  | some id =>
      refine ScopeM.ends_get_bind ?_
      cases hfind : scope.identity.find? (record.modelName, id) with
      | none => exact Adds.adopt id hid hfind
      | some handle => exact ScopeM.ends_set_bind (ScopeM.ends_pure (.replace id handle hid hfind))

/-- The record of a row comes at the end and stands for its key, if the row can be read. -/
theorem materialize_cases (env : Environment) (scope : Scope) (model : Model) (id : Int64)
    (row : StoredRow) :
    (materialize env model id row).Ends scope
      (fun _ after => ∃ loaded, after = scope.appendAs
        { record := .loaded model (env.registry.collectionNames model.name) id loaded
          state := .persistent }
        (scope.identity.insert (model.name, id) scope.entries.length))
      (fun after => after = scope) := by
  unfold materialize
  refine ScopeM.ends_lift_bind ?_ rfl
  intro stored _
  refine ScopeM.ends_lift_bind ?_ rfl
  intro loaded _
  exact ⟨loaded, rfl⟩

/-- The record of a row that fits is made where it can be; nothing happens to the scope where it cannot. -/
theorem materialize_of_fits {find? : String → Option Model} (hcompiled : model.Compiled find?)
    {row : StoredRow} {columns : List (String × Value)} (hholds : row.Holds columns)
    (hfits : model.Fits columns) (id : Int64) {done : Handle → Scope → Prop} {failed : Scope → Prop}
    (hdone : model.CanLoad row → ∀ loaded, List.Forall₂ (LoadedAs model) columns loaded →
      done scope.entries.length (scope.appendAs
        { record := .loaded model (env.registry.collectionNames model.name) id loaded
          state := .persistent }
        (scope.identity.insert (model.name, id) scope.entries.length)))
    (hfailed : ¬model.CanLoad row → failed scope) :
    (materialize env model id row).Ends scope done failed := by
  unfold materialize
  cases hread : decodeRow row.data with
  | error fault =>
      refine hfailed ?_
      rintro ⟨others, -, hothers, -⟩
      rw [hread] at hothers
      cases hothers
  | ok stored =>
      obtain rfl := hholds.of_decodeRow hread
      refine ScopeM.ends_lift_bind_of_ok rfl ?_
      cases hloaded : stored.foldlM (loadColumn model) [] with
      | error error =>
          refine hfailed ?_
          rintro ⟨others, loaded, hothers, hload⟩
          rw [hread] at hothers
          cases hothers
          rw [hloaded] at hload
          cases hload
      | ok values =>
          obtain ⟨loaded, hsame, hall⟩ := (foldlM_loadColumn_iff (hfits.column?_eq hcompiled)).1 hloaded
          obtain rfl : values = loaded := hsame
          exact ScopeM.ends_lift_bind_of_ok rfl (hdone ⟨stored, _, hread, hloaded⟩ values hall)

/-- A scope stays sound with one more record that is sound, when no key is taken from another
record. -/
theorem Sound.appendAs (h : scope.Sound env history) {new : Entry}
    {identity : SortedMap (String × Int64) Handle}
    (hkept : ∀ key handle, scope.identity.find? key = some handle →
      identity.find? key = some handle)
    (hadded : ∀ name id handle, identity.find? (name, id) = some handle →
      scope.identity.find? (name, id) = some handle ∨
        handle = scope.entries.length ∧ new.record.modelName = name ∧ new.record.id = some id)
    (hnew : (scope.appendAs new identity).EntrySound env history scope.entries.length new) :
    (scope.appendAs new identity).Sound env history where
  entries handle entry hentry := by
    rcases getElem?_appendAs.1 hentry with hold | ⟨rfl, rfl⟩
    · have hsound := h.entries handle entry hold
      refine hsound.transfer (.refl entry) ?_ (fun _ _ => rfl)
        (fun _ value hvalue => ⟨value, hvalue, Nat.le_refl _⟩) (Nat.le_refl _)
      intro id hid
      have hfound := (hsound.identified id hid).2
      rw [hfound]
      exact hkept _ _ hfound
    · exact hnew
  identity name id handle hfind := by
    rcases hadded name id handle hfind with hold | ⟨rfl, hname, hid⟩
    · exact (carries_appendAs scope new identity).identity (h.identity name id handle hold)
    · exact ⟨new, getElem?_appendAs.2 (Or.inr ⟨rfl, rfl⟩), hname, hid⟩
  rows_fit := h.rows_fit
  rows_numbered := h.rows_numbered
  staged table id row hstaged :=
    (carries_appendAs scope new identity).staged (h.staged table id row hstaged)
  sequences := h.sequences
  links handle column target hlink :=
    (carries_appendAs scope new identity).isReference (h.links handle column target hlink)
  fresh handle hhandle column := by
    refine h.fresh handle ?_ column
    have hlength : (scope.appendAs new identity).entries.length = scope.entries.length + 1 :=
      List.length_append
    omega
  supply := h.supply

/-- A fresh record is sound: nothing was assigned to it. -/
theorem EntrySound.fresh (h : scope.Sound env history) (hmodel : model ∈ env.registry.models)
    (collections : List String) :
    (scope.appendAs { record := .new model collections, state := .pending }
      scope.identity).EntrySound
      env history scope.entries.length { record := .new model collections, state := .pending } := by
  constructor
  case registered => exact hmodel
  case identified =>
    intro id hid
    cases hid
  case numbered =>
    intro id sequence value hid
    cases hid
  case numbered_here =>
    intro id sequence value _ hid
    cases hid
  case present =>
    rintro (hstate | hstate)
    · cases hstate
    · cases hstate
  case absent =>
    intro _ id row hid
    cases hid
  case marked =>
    intro _ column _ hchanged
    cases hchanged
  case unassigned =>
    intro _ column _ _
    exact h.fresh _ (Nat.le_refl _) column.name
  case explained =>
    intro hstate
    cases hstate

theorem create_ends (hregistry : env.registry.Consistent) (h : scope.Sound env history)
    (name : String) :
    (create env name).Ends scope (fun _ after => after.Sound env history)
      (fun after => after.Sound env history) := by
  refine (create_cases env scope name).mono ?_ ?_
  · rintro _ _ ⟨model, hmodel, rfl⟩
    have hmem := (hregistry.model_eq_ok.1 hmodel).1
    exact h.appendAs (fun _ _ hfind => hfind) (fun _ _ _ hfind => Or.inl hfind)
      (EntrySound.fresh h hmem _)
  · rintro _ rfl
    exact h

/-! ## Records of rows -/

/-- A row of a key that stands for no record is not staged. -/
theorem Sound.visibleRow_of_unidentified (hregistry : env.registry.Consistent)
    (h : scope.Sound env history) (hmodel : model ∈ env.registry.models) {id : Int64}
    (hnone : scope.identity.find? (model.name, id) = none) :
    scope.visibleRow env model.tableName id.toUInt64 =
      env.storage.row? model.tableName id.toUInt64 := by
  unfold visibleRow
  cases hstaged : scope.staged.find? (model.tableName, id.toUInt64) with
  | none => rfl
  | some row =>
      rcases h.staged _ _ row hstaged with ⟨handle, entry, key, hentry, htable, hkey, hnumber⟩
      have hsound := h.entries handle entry hentry
      have hsame := hregistry.eq_of_tableName hsound.registered hmodel htable
      -- The record that the staged row belongs to would stand for the key.
      have hfound := (hsound.identified key hkey).2
      rw [toUInt64_injective hnumber] at hfound
      have hname : entry.record.modelName = model.name := congrArg Model.name hsame
      rw [hname, hnone] at hfound
      cases hfound

/-- A record that was just loaded is sound: its data columns hold what was loaded from the storage.
-/
theorem EntrySound.loaded (hregistry : env.registry.Consistent) (h : scope.Sound env history)
    (hmodel : model ∈ env.registry.models) {id : Int64} (hid : 0 ≤ id.toInt) {row : StoredRow}
    (hrow : scope.visibleRow env model.tableName id.toUInt64 = .ok (some row))
    (hnone : scope.identity.find? (model.name, id) = none) {columns loaded : List (String × Value)}
    (hholds : row.Holds columns) (hfits : model.Fits columns)
    (hloaded : List.Forall₂ (LoadedAs model) columns loaded) (collections : List String) :
    (scope.appendAs { record := .loaded model collections id loaded, state := .persistent }
      (scope.identity.insert (model.name, id) scope.entries.length)).EntrySound env history
        scope.entries.length
        { record := .loaded model collections id loaded, state := .persistent } := by
  have hsame := Record.loaded_model model collections id loaded
  have hkey := Record.loaded_id model collections id loaded
  have hunchanged := Record.loaded_changed model collections id loaded
  rcases hregistry.mem_compiled hmodel with ⟨place, -, hcompiled⟩
  constructor
  case registered =>
    rw [hsame]
    exact hmodel
  case identified =>
    intro key hfound
    rw [hkey] at hfound
    cases hfound
    refine ⟨hid, ?_⟩
    have hname : (Record.loaded model collections id loaded).modelName = model.name :=
      congrArg Model.name hsame
    rw [hname]
    show (scope.identity.insert (model.name, id) scope.entries.length).find? _ = _
    rw [SortedMap.find?_insert, if_pos rfl]
  case numbered =>
    intro key sequence value hfound hsequence hvalue
    rw [hkey] at hfound
    cases hfound
    rw [hsame] at hsequence
    have hle := h.rows_numbered model hmodel _ row sequence value hrow hsequence hvalue
    have hnumber := toNat_toUInt64 hid
    omega
  case numbered_here =>
    intro _ _ _ hstate
    cases hstate
  case present =>
    intro _
    refine ⟨id, row, hkey, ?_⟩
    rw [hsame]
    exact hrow
  case absent =>
    rintro (hstate | hstate)
    · cases hstate
    · cases hstate
  case marked =>
    intro _ column _ hchanged
    unfold Record.isChanged at hchanged
    rw [hunchanged] at hchanged
    cases hchanged
  case unassigned =>
    intro hstate
    cases hstate
  case explained =>
    intro _ key other others hfound hvisible hothers column hdata _
    rw [hkey] at hfound
    cases hfound
    rw [hsame] at hvisible hdata
    change scope.visibleRow env model.tableName id.toUInt64 = _ at hvisible
    rw [hrow] at hvisible
    cases hvisible
    obtain rfl := hholds.unique hothers
    -- The visible row is the one in the storage, since no record stands for it.
    rcases Record.find?_loaded hcompiled hfits hloaded collections id hdata.mem hdata.not_key with
      ⟨value, hvalue, hload⟩
    refine .loaded row columns value (h.fresh _ (Nat.le_refl _) column.name) ?_ hholds rfl hvalue
      hload
    rw [hsame, ← h.visibleRow_of_unidentified hregistry hmodel hnone]
    exact hrow

/-- A visible row that no record stands for is loaded if it can be, and keeps a scope sound. -/
theorem materialize_ends (hregistry : env.registry.Consistent) (h : scope.SoundReady env history)
    (hmodel : model ∈ env.registry.models) {id : Int64} (hid : 0 ≤ id.toInt) {row : StoredRow}
    (hrow : scope.visibleRow env model.tableName id.toUInt64 = .ok (some row))
    (hnone : scope.identity.find? (model.name, id) = none) :
    (materialize env model id row).Ends scope
      (fun handle after => model.CanLoad row ∧ after.SoundReady env history ∧
        after.staged = scope.staged ∧
        ∃ entry, after.entries[handle]? = some entry ∧ entry.state = .persistent ∧
          entry.record.model = model ∧ entry.record.id = some id ∧ entry.record.changed = ∅)
      (fun after => ¬model.CanLoad row ∧ after = scope) := by
  rcases h.1.rows_fit model hmodel _ row hrow with ⟨columns, hholds, hfits⟩
  rcases hregistry.mem_compiled hmodel with ⟨place, -, hcompiled⟩
  refine materialize_of_fits hcompiled hholds hfits id ?_ fun hfails => ⟨hfails, rfl⟩
  intro hcan loaded hall
  have hnew := EntrySound.loaded hregistry h.1 hmodel hid hrow hnone hholds hfits hall
    (env.registry.collectionNames model.name)
  refine ⟨hcan, ⟨h.1.appendAs ?_ ?_ hnew, ?_⟩, rfl, _, getElem?_appendAs.2 (Or.inr ⟨rfl, rfl⟩), rfl,
    Record.loaded_model .., Record.loaded_id .., Record.loaded_changed ..⟩
  · -- The key stood for no record, so no key is taken from another.
    intro key handle hfind
    rw [SortedMap.find?_insert]
    by_cases hkey : key = (model.name, id)
    · rw [hkey, hnone] at hfind
      cases hfind
    · rw [if_neg hkey]
      exact hfind
  · intro name key handle hfind
    rcases SortedMap.find?_insert_eq_some.1 hfind with ⟨hkey, rfl⟩ | ⟨-, hold⟩
    · cases hkey
      exact Or.inr ⟨rfl, congrArg Model.name (Record.loaded_model ..), Record.loaded_id ..⟩
    · exact Or.inl hold
  · intro handle entry hentry hpending
    rcases getElem?_appendAs.1 hentry with hold | ⟨-, rfl⟩
    · exact h.2 handle entry hold hpending
    · cases hpending

end Scope

end RecordStore
