import RecordStore.Proofs.Scope.Lookups
import RecordStore.Proofs.Scope.SoundRows

/-!
# What look-ups return

A look-up returns handles for which the keys of the rows stand: handles of records that were there, or of
records that it has just loaded.  Nothing is added to a scope but loaded records (`Scope.Loads`), and these
are the records of rows that can be loaded (`Scope.LoadsOnly`).  A look-up by value reads one column of each
row; it returns one handle for each row that it selects, in their order, and fails exactly if a row stops it
(`Scope.selectRows_loads`).
-/

namespace RecordStore

/-! ## Rows that are selected -/

namespace StoredRow

/-- Whether the value that is loaded for a column equals the one that is asked for. -/
def isSelected (filter : Option (Column × Value)) (row : StoredRow) : Bool :=
  match filter with
  | some (column, value) => (row.read column).toOption.any (·.equals value)
  | none => true

/-- The column that is asked for can be read. -/
def Answers (row : StoredRow) (filter : Option (Column × Value)) : Prop :=
  ∀ asked ∈ filter, ∃ value, row.read asked.1 = .ok value

theorem answers_none (row : StoredRow) : row.Answers none :=
  fun _ hasked => nomatch hasked

theorem answers_some {row : StoredRow} {column : Column} {value : Value} :
    row.Answers (some (column, value)) ↔ ∃ held, row.read column = .ok held := by
  simp [Answers]

end StoredRow

namespace Scope

variable {env : Environment} {terms : Terms} {deleted : List (String × UInt64)}
  {scope before after last : Scope} {model : Model} {handle : Handle} {name : String} {id : Int64}

theorem holds_eq (column : Column) (value : Value) (row : StoredRow) :
    holds column value row = do return (← row.read column).equals value := by
  unfold holds StoredRow.read
  rw [bind_assoc]

/-- A filter is answered where the column that is asked for can be read, and is an error elsewhere. -/
theorem passes_eq_ok {filter : Option (Column × Value)} {row : StoredRow} {passed : Bool} :
    passes filter row = .ok passed ↔ row.Answers filter ∧ passed = row.isSelected filter := by
  cases filter with
  | none =>
      show Except.ok true = _ ↔ _
      rw [Except.ok.injEq, eq_comm]
      exact (and_iff_right row.answers_none).symm
  | some asked =>
      obtain ⟨column, value⟩ := asked
      show holds column value row = _ ↔ _
      rw [holds_eq, StoredRow.answers_some]
      unfold StoredRow.isSelected
      cases hread : row.read column with
      | error error => simp [bind, Except.bind]
      | ok held => simp [hread, bind, Except.bind, pure, Except.pure, Except.toOption, eq_comm]

/-! ## Scopes in which records are loaded -/

/-- Some records were loaded, and nothing else has happened. -/
structure Loads (before after : Scope) : Prop where
  staged : after.staged = before.staged
  links : after.links = before.links
  entries : ∃ loaded, after.entries = before.entries ++ loaded ∧
    ∀ entry ∈ loaded, entry.state = .persistent ∧ entry.record.changed = ∅
  identity : ∀ key handle, before.identity.find? key = some handle →
    after.identity.find? key = some handle

namespace Loads

theorem of_same (hstaged : after.staged = before.staged) (hlinks : after.links = before.links)
    (hentries : after.entries = before.entries) (hidentity : after.identity = before.identity) :
    before.Loads after where
  staged := hstaged
  links := hlinks
  entries := ⟨[], by simp [hentries], by simp⟩
  identity key handle hfind := by simpa [hidentity] using hfind

theorem refl (scope : Scope) : scope.Loads scope :=
  of_same rfl rfl rfl rfl

theorem trans (h : before.Loads after) (h' : after.Loads last) : before.Loads last where
  staged := h'.staged.trans h.staged
  links := h'.links.trans h.links
  entries := by
    obtain ⟨first, hfirst, hnew⟩ := h.entries
    obtain ⟨second, hsecond, hnew'⟩ := h'.entries
    refine ⟨first ++ second, by simp [hsecond, hfirst], ?_⟩
    intro entry hentry
    exact (List.mem_append.1 hentry).elim (hnew entry) (hnew' entry)
  identity key handle hfind := h'.identity key handle (h.identity key handle hfind)

theorem visibleRow (h : before.Loads after) (table : String) (number : UInt64) :
    after.visibleRow env table number = before.visibleRow env table number :=
  visibleRow_congr (by rw [h.staged])

theorem visibleRows (h : before.Loads after) (table : String) :
    after.visibleRows env table = before.visibleRows env table := by
  simp [Scope.visibleRows, h.staged]

/-- A record that was there still is, as it was. -/
theorem getElem? (h : before.Loads after) {entry : Entry} (hentry : before.entries[handle]? = some entry) :
    after.entries[handle]? = some entry := by
  obtain ⟨loaded, hloaded, -⟩ := h.entries
  rw [hloaded, List.getElem?_append_left (List.getElem?_eq_some_iff.1 hentry).1, hentry]

/-- Loaded records are in step with their rows, so a settled scope stays settled. -/
theorem settled (h : before.Loads after) (hsettled : before.Settled) : after.Settled := by
  intro handle entry hentry
  obtain ⟨loaded, hloaded, hnew⟩ := h.entries
  rw [hloaded] at hentry
  rcases List.mem_append.1 (List.mem_of_getElem? hentry) with hold | hlater
  · obtain ⟨place, hplace⟩ := List.mem_iff_getElem?.1 hold
    exact hsettled place entry hplace
  · exact Or.inl (hnew entry hlater)

end Loads

/-- The keys of a model that have come to stand for records are those of visible rows that can be
loaded. -/
def LoadsOnly (env : Environment) (model : Model) (before after : Scope) : Prop :=
  ∀ id handle, after.identity.find? (model.name, id) = some handle →
    before.identity.find? (model.name, id) = some handle ∨
      ∃ row, before.visibleRow env model.tableName id.toUInt64 = .ok (some row) ∧ model.CanLoad row

theorem LoadsOnly.refl (env : Environment) (model : Model) (scope : Scope) :
    scope.LoadsOnly env model scope :=
  fun _ _ hfind => Or.inl hfind

theorem LoadsOnly.trans (h : before.LoadsOnly env model after) (hloads : before.Loads after)
    (h' : after.LoadsOnly env model last) : before.LoadsOnly env model last := by
  intro id handle hfind
  rcases h' id handle hfind with hheld | ⟨row, hrow, hcan⟩
  · exact h id handle hheld
  · exact Or.inr ⟨row, (hloads.visibleRow _ _).symm.trans hrow, hcan⟩

section

variable (hregistry : env.registry.Consistent)
  (hcount : ∀ model ∈ env.registry.models, model.columns.length < 4294967296)
  (hsound : scope.SoundRows env deleted) (hmodel : model ∈ env.registry.models)

include hregistry hcount hsound hmodel

/-- A visible row whose key stands for no record is loaded if it can be. -/
theorem materialize_loads {row : StoredRow}
    (hrow : scope.visibleRow env model.tableName id.toUInt64 = .ok (some row))
    (hnone : scope.identity.find? (model.name, id) = none) :
    (materialize env model id row).Ends scope
      (fun handle after => model.CanLoad row ∧ scope.Loads after ∧ scope.LoadsOnly env model after ∧
        handle = scope.entries.length ∧ after.identity.find? (model.name, id) = some handle)
      (fun _ => ¬model.CanLoad row) := by
  obtain ⟨columns, hwrote⟩ := hsound.written model hmodel _ row hrow
  obtain ⟨_, -, hcompiled⟩ := hregistry.mem_compiled hmodel
  refine materialize_of_fits hcompiled (hwrote.holds (hcount model hmodel)) hwrote.fits id ?_
    fun hfails => hfails
  intro hcan loaded _
  refine ⟨hcan, ⟨rfl, rfl, ⟨[_], rfl, ?_⟩, ?_⟩, ?_, rfl, ?_⟩
  · intro entry hentry
    obtain rfl := List.mem_singleton.1 hentry
    exact ⟨rfl, Record.loaded_changed ..⟩
  · -- No other key is taken away, since the key of the row stood for no record.
    intro key other hfind
    show (scope.identity.insert (model.name, id) _).find? key = _
    have hne : key ≠ (model.name, id) := by
      rintro rfl
      simp [hnone] at hfind
    simp [SortedMap.find?_insert, hne, hfind]
  · intro key handle hfind
    rcases SortedMap.find?_insert_eq_some.1 hfind with ⟨hkey, -⟩ | ⟨-, hold⟩
    · cases hkey
      exact Or.inr ⟨row, hrow, hcan⟩
    · exact Or.inl hold
  · show (scope.identity.insert (model.name, id) _).find? (model.name, id) = _
    simp [SortedMap.find?_insert]

end

/-! ## By key -/

/-- What is found by a key: the record that the key stands for, or the next one when a row is to be loaded
and can be. -/
inductive FindsAt (env : Environment) (scope : Scope) (model : Model) (id : Int64) : Handle → Prop where
  | held (handle : Handle) (entry : Entry) : scope.identity.find? (model.name, id) = some handle →
      scope.entries[handle]? = some entry → entry.state.isLive = true → FindsAt env scope model id handle
  | loaded (row : StoredRow) : scope.identity.find? (model.name, id) = none → 0 ≤ id.toInt →
      scope.visibleRow env model.tableName id.toUInt64 = .ok (some row) → model.CanLoad row →
      FindsAt env scope model id scope.entries.length

/-- A key is found at one handle. -/
theorem FindsAt.unique {other : Handle} (h : scope.FindsAt env model id handle)
    (h' : scope.FindsAt env model id other) : other = handle := by
  cases h with
  | held _ _ hfind =>
      cases h' with
      | held _ _ hother => exact Option.some.inj (hother.symm.trans hfind)
      | loaded _ hnone => cases hnone.symm.trans hfind
  | loaded _ hnone =>
      cases h' with
      | held _ _ hother => cases hnone.symm.trans hother
      | loaded => rfl

/-- A key that stands for a record is found only if the record is there. -/
theorem FindsAt.of_held {other : Handle} (h : scope.FindsAt env model id other)
    (hfind : scope.identity.find? (model.name, id) = some handle) :
    ∃ entry, scope.entries[handle]? = some entry ∧ entry.state.isLive = true := by
  cases h with
  | held _ entry hfound hentry hlive =>
      obtain rfl := Option.some.inj (hfind.symm.trans hfound)
      exact ⟨entry, hentry, hlive⟩
  | loaded _ hnone => cases hnone.symm.trans hfind

/-- A key that stands for no record is found only if its row is visible and can be loaded. -/
theorem FindsAt.of_none (h : scope.FindsAt env model id handle)
    (hnone : scope.identity.find? (model.name, id) = none) :
    0 ≤ id.toInt ∧ ∃ row, scope.visibleRow env model.tableName id.toUInt64 = .ok (some row) ∧
      model.CanLoad row := by
  cases h with
  | held _ _ hfind => cases hnone.symm.trans hfind
  | loaded row _ hpositive hvisible hcan => exact ⟨hpositive, row, hvisible, hcan⟩

section

variable (hregistry : env.registry.Consistent)
  (hcount : ∀ model ∈ env.registry.models, model.columns.length < 4294967296)
  (hsound : scope.SoundRows env deleted)

include hregistry hcount hsound

/-- A look-up by key returns what is found, and fails if nothing is. -/
theorem find_finds (name : String) (id : Int64) :
    (find env name id).Ends scope
      (fun handle after => scope.Loads after ∧ after.identity.find? (name, id) = some handle ∧
        ∃ model ∈ env.registry.models, model.name = name ∧ scope.FindsAt env model id handle)
      (fun _ => ∀ model ∈ env.registry.models, model.name = name →
        ∀ handle, ¬scope.FindsAt env model id handle) := by
  unfold find
  cases hknown : env.registry.model name with
  | error error =>
      refine ScopeM.ends_lift_bind (fun _ h => by cases h) ?_
      intro model hmodel hname
      cases hknown.symm.trans (hregistry.model_eq_ok.2 ⟨hmodel, hname⟩)
  | ok model =>
      obtain ⟨hmodel, rfl⟩ := hregistry.model_eq_ok.1 hknown
      refine ScopeM.ends_lift_bind_of_ok rfl (ScopeM.ends_get_bind ?_)
      -- No other model has the name.
      have hfailed : (∀ handle, ¬scope.FindsAt env model id handle) →
          ∀ other ∈ env.registry.models, other.name = model.name →
            ∀ handle, ¬scope.FindsAt env other id handle := by
        intro hnone other hother hname
        rwa [hregistry.eq_of_name hother hmodel hname]
      cases hfind : scope.identity.find? (model.name, id) with
      | some handle =>
          simp only []
          cases hentry : scope.entries[handle]? with
          | none =>
              refine ScopeM.ends_throw (hfailed fun found hfound => ?_)
              obtain ⟨entry, hentry', -⟩ := hfound.of_held hfind
              cases hentry.symm.trans hentry'
          | some entry =>
              by_cases hlive : entry.state.isLive = true
              · simp only [if_pos hlive]
                exact ScopeM.ends_pure ⟨.refl scope, hfind, model, hmodel, rfl,
                  .held handle entry hfind hentry hlive⟩
              · simp only [if_neg hlive]
                refine ScopeM.ends_throw (hfailed fun found hfound => ?_)
                obtain ⟨other, hother, hlive'⟩ := hfound.of_held hfind
                obtain rfl := Option.some.inj (hentry.symm.trans hother)
                exact hlive hlive'
      | none =>
          by_cases hnegative : id.toInt < 0
          · simp only [if_pos hnegative]
            refine ScopeM.ends_throw (hfailed fun found hfound => ?_)
            have hpositive := (hfound.of_none hfind).1
            omega
          · simp only [if_neg hnegative]
            by_cases hvisible : ∃ row, scope.visibleRow env model.tableName id.toUInt64 = .ok (some row)
            · obtain ⟨row, hvisible⟩ := hvisible
              refine ScopeM.ends_bind (((lookUpRow_visible hvisible).and
                (lookUpRow_cases scope env _ _)).mono (fun _ _ h => h) fun _ h => h.1.elim) ?_
              rintro _ asked ⟨⟨-, rfl⟩, hasked, -⟩
              -- At most it is noted that the storage was asked.
              have hsame : scope.Loads asked ∧ asked.identity = scope.identity ∧
                  asked.entries = scope.entries := by
                rcases hasked with rfl | rfl
                · exact ⟨.refl _, rfl, rfl⟩
                · exact ⟨.of_same rfl rfl rfl rfl, rfl, rfl⟩
              refine (materialize_loads hregistry hcount (hsound.congr hsame.1.staged) hmodel
                ((hsame.1.visibleRow _ _).trans hvisible) (by rw [hsame.2.1, hfind])).mono ?_ ?_
              · rintro _ after ⟨hcan, hloads, -, rfl, hidentity⟩
                refine ⟨hsame.1.trans hloads, hidentity, model, hmodel, rfl, ?_⟩
                rw [hsame.2.2]
                exact .loaded row hfind (by omega) hvisible hcan
              · -- A row that cannot be loaded is not found.
                intro _ hfails
                refine hfailed fun found hfound => ?_
                obtain ⟨-, other, hother, hcan⟩ := hfound.of_none hfind
                cases hvisible.symm.trans hother
                exact hfails hcan
            · have hmissing := hfailed fun found hfound =>
                hvisible ((hfound.of_none hfind).2.imp fun _ h => h.1)
              refine ScopeM.ends_bind ((lookUpRow_cases scope env _ _).mono (fun _ _ h => h)
                fun _ _ => hmissing) ?_
              rintro row asked ⟨-, hlooked⟩
              cases row with
              | none => exact ScopeM.ends_throw hmissing
              | some row => exact absurd ⟨row, hlooked⟩ hvisible

/-- What is found by a key is returned. -/
theorem find_of_findsAt (hmodel : model ∈ env.registry.models) (h : scope.FindsAt env model id handle) :
    (find env model.name id).Ends scope (fun found _ => found = handle) (fun _ => False) := by
  refine (find_finds hregistry hcount hsound model.name id).mono ?_ ?_
  · rintro found _ ⟨-, -, other, hother, hname, hfound⟩
    rw [hregistry.eq_of_name hother hmodel hname] at hfound
    exact h.unique hfound
  · intro _ hnone
    exact hnone model hmodel rfl handle h

theorem find_run_iff (hmodel : model ∈ env.registry.models) :
    (∃ after, (find env model.name id).run scope = .ok handle after) ↔
      scope.FindsAt env model id handle := by
  constructor
  · rintro ⟨after, hrun⟩
    obtain ⟨-, -, other, hother, hname, hfound⟩ :=
      (find_finds hregistry hcount hsound model.name id).of_ok hrun
    rwa [hregistry.eq_of_name hother hmodel hname] at hfound
  · intro h
    obtain ⟨_, after, hrun, rfl⟩ := (find_of_findsAt hregistry hcount hsound hmodel h).run_eq
    exact ⟨after, hrun⟩

/-- What is found by its key is what the key stands for. -/
theorem find_loads (name : String) (id : Int64) :
    (find env name id).Ends scope
      (fun handle after => scope.Loads after ∧ after.identity.find? (name, id) = some handle)
      (fun _ => True) :=
  (find_finds hregistry hcount hsound name id).mono (fun _ _ hdone => ⟨hdone.1, hdone.2.1⟩)
    fun _ _ => trivial

end

/-! ## By value -/

/-- The keys of rows stand for handles, row by row. -/
def Represents (scope : Scope) (model : Model) (rows : List (UInt64 × StoredRow))
    (handles : List Handle) : Prop :=
  List.Forall₂ (fun row handle => ∃ id, keyOf row.1 = .ok id ∧
    scope.identity.find? (model.name, id) = some handle) rows handles

namespace Represents

variable {rows : List (UInt64 × StoredRow)} {handles : List Handle}

theorem loads (h : before.Represents model rows handles) (hloads : before.Loads after) :
    after.Represents model rows handles :=
  h.imp fun _ _ ⟨id, hid, hfind⟩ => ⟨id, hid, hloads.identity _ _ hfind⟩

/-- The handles are determined by the rows. -/
theorem unique (h : scope.Represents model rows handles) {others : List Handle}
    (h' : scope.Represents model rows others) : others = handles := by
  induction h generalizing others with
  | nil => simpa using List.forall₂_nil_left_iff.1 h'
  | @cons row handle _ _ hfirst _ ih =>
      cases h' with
      | @cons _ other _ _ hother hrest =>
          obtain ⟨id, hid, hfind⟩ := hfirst
          obtain ⟨key, hkey, hfind'⟩ := hother
          obtain rfl := Except.ok.inj (hid.symm.trans hkey)
          obtain rfl := Option.some.inj (hfind.symm.trans hfind')
          rw [ih hrest]

theorem exists_key (h : scope.Represents model rows handles) (hhandle : handle ∈ handles) :
    ∃ id, scope.identity.find? (model.name, id) = some handle := by
  obtain ⟨row, -, id, -, hfind⟩ := exists_of_mem_forall₂ h.flip hhandle
  exact ⟨id, hfind⟩

end Represents

/-- A row that ends a look-up by value: the column that is asked for cannot be read, or the row is selected
but has no key, or no record stands for its key and the row cannot be loaded. -/
inductive Stops (scope : Scope) (model : Model) (filter : Option (Column × Value))
    (row : UInt64 × StoredRow) : Prop where
  | unread : ¬row.2.Answers filter → Stops scope model filter row
  | keyless : row.2.isSelected filter = true → (∀ id, keyOf row.1 ≠ .ok id) → Stops scope model filter row
  | unloadable (id : Int64) : row.2.isSelected filter = true → keyOf row.1 = .ok id →
      scope.identity.find? (model.name, id) = none → ¬model.CanLoad row.2 → Stops scope model filter row

theorem Stops.of_loads {filter : Option (Column × Value)} {row : UInt64 × StoredRow}
    (h : after.Stops model filter row) (hloads : before.Loads after) : before.Stops model filter row := by
  cases h with
  | unread hunread => exact .unread hunread
  | keyless hselected hnone => exact .keyless hselected hnone
  | unloadable id hselected hkey hnone hfails =>
      refine .unloadable id hselected hkey ?_ hfails
      cases hfind : before.identity.find? (model.name, id) with
      | none => rfl
      | some handle => cases hnone.symm.trans (hloads.identity _ _ hfind)

section

variable (hregistry : env.registry.Consistent)
  (hcount : ∀ model ∈ env.registry.models, model.columns.length < 4294967296)
  (hmodel : model ∈ env.registry.models) (filter : Option (Column × Value))

include hregistry hcount hmodel

/-- One row: its key stands for the handle that is returned. -/
theorem selectRow_loads (hsound : scope.SoundRows env deleted) {row : UInt64 × StoredRow}
    (hrow : scope.visibleRow env model.tableName row.1 = .ok (some row.2)) :
    (selectRow env model filter row).Ends scope
      (fun found after => scope.Loads after ∧ scope.LoadsOnly env model after ∧ row.2.Answers filter ∧
        after.Represents model ([row].filter (·.2.isSelected filter)) found.toList)
      (fun _ => scope.Stops model filter row) := by
  unfold selectRow
  cases hpasses : passes filter row.2 with
  | error error =>
      refine ScopeM.ends_throw (.unread fun hanswers => ?_)
      cases hpasses.symm.trans (passes_eq_ok.2 ⟨hanswers, rfl⟩)
  | ok passed =>
      obtain ⟨hanswers, rfl⟩ := passes_eq_ok.1 hpasses
      refine ScopeM.ends_lift_bind_of_ok rfl ?_
      -- Of a row that is not selected, neither the key nor the other columns are looked at.
      cases hselected : row.2.isSelected filter with
      | false =>
          have hnone : [row].filter (·.2.isSelected filter) = [] := by simp [hselected]
          refine ScopeM.ends_pure ⟨.refl scope, .refl env model scope, hanswers, ?_⟩
          rw [hnone]
          exact .nil
      | true =>
          have hall : [row].filter (·.2.isSelected filter) = [row] := by simp [hselected]
          rw [hall]
          cases hkey : keyOf row.1 with
          | error error =>
              refine ScopeM.ends_throw (.keyless hselected fun id h => ?_)
              cases hkey.symm.trans h
          | ok id =>
              obtain ⟨-, hnumber⟩ := keyOf_eq_ok hkey
              refine ScopeM.ends_lift_bind_of_ok rfl (ScopeM.ends_get_bind ?_)
              cases hfind : scope.identity.find? (model.name, id) with
              | some handle =>
                  exact ScopeM.ends_pure ⟨.refl scope, .refl env model scope, hanswers,
                    .cons ⟨id, hkey, hfind⟩ .nil⟩
              | none =>
                  refine ScopeM.ends_bind ((materialize_loads hregistry hcount hsound hmodel
                    (hnumber ▸ hrow) hfind).mono (fun _ _ h => h)
                    fun _ hfails => .unloadable id hselected hkey hfind hfails) ?_
                  rintro handle after ⟨-, hloads, honly, -, hidentity⟩
                  exact ScopeM.ends_pure ⟨hloads, honly, hanswers, .cons ⟨id, hkey, hidentity⟩ .nil⟩

/-- The rows that are selected, in their order, are those for which handles are returned, unless one of the
rows stops the look-up. -/
theorem selectRows_loads (hsound : scope.SoundRows env deleted) {rows : List (UInt64 × StoredRow)}
    (hrows : ∀ row ∈ rows, scope.visibleRow env model.tableName row.1 = .ok (some row.2)) :
    (selectRows env model filter rows).Ends scope
      (fun handles after => scope.Loads after ∧ scope.LoadsOnly env model after ∧
        (∀ row ∈ rows, row.2.Answers filter) ∧
        after.Represents model (rows.filter (·.2.isSelected filter)) handles)
      (fun _ => ∃ row ∈ rows, scope.Stops model filter row) := by
  induction rows generalizing scope with
  | nil => exact ScopeM.ends_pure ⟨.refl scope, .refl env model scope, by simp, .nil⟩
  | cons row rest ih =>
      unfold selectRows
      refine ScopeM.ends_bind ((selectRow_loads hregistry hcount hmodel filter hsound
        (hrows row List.mem_cons_self)).mono (fun _ _ h => h)
        fun _ h => ⟨row, List.mem_cons_self, h⟩) ?_
      rintro found middle ⟨hloads, honly, hanswers, hfirst⟩
      -- The rest is selected from the same rows, as nothing was staged.
      have hrest : (selectRows env model filter rest).Ends middle
          (fun handles after => middle.Loads after ∧ middle.LoadsOnly env model after ∧
            (∀ other ∈ rest, other.2.Answers filter) ∧
            after.Represents model (rest.filter (·.2.isSelected filter)) handles)
          (fun _ => ∃ other ∈ row :: rest, scope.Stops model filter other) := by
        refine (ih (hsound.congr hloads.staged) ?_).mono (fun _ _ h => h) ?_
        · intro other hother
          exact (hloads.visibleRow _ _).trans (hrows other (List.mem_cons_of_mem _ hother))
        · rintro _ ⟨other, hother, hstops⟩
          exact ⟨other, List.mem_cons_of_mem _ hother, hstops.of_loads hloads⟩
      have hall : ∀ {handles : List Handle} {after : Scope}, middle.Loads after →
          middle.LoadsOnly env model after → (∀ other ∈ rest, other.2.Answers filter) →
          after.Represents model (rest.filter (·.2.isSelected filter)) handles →
          scope.Loads after ∧ scope.LoadsOnly env model after ∧
            (∀ other ∈ row :: rest, other.2.Answers filter) ∧
            after.Represents model ((row :: rest).filter (·.2.isSelected filter))
              (found.toList ++ handles) := by
        intro handles after hlater honly' hanswers' hothers
        refine ⟨hloads.trans hlater, honly.trans hloads honly',
          List.forall_mem_cons.2 ⟨hanswers, hanswers'⟩, ?_⟩
        rw [← List.singleton_append, List.filter_append]
        exact List.rel_append (hfirst.loads hlater) hothers
      cases found with
      | none =>
          refine hrest.mono ?_ fun _ h => h
          rintro handles after ⟨hlater, honly', hanswers', hothers⟩
          exact hall hlater honly' hanswers' hothers
      | some handle =>
          refine ScopeM.ends_bind hrest ?_
          rintro handles after ⟨hlater, honly', hanswers', hothers⟩
          exact ScopeM.ends_pure (hall hlater honly' hanswers' hothers)

end

/-! ## Selecting after a flush -/

/-- What a look-up by value goes through when it succeeds. -/
structure Selected (env : Environment) (scope : Scope) (model : Model)
    (resolved : Option (Column × Value)) (flushed : Scope) (rows : SortedMap UInt64 StoredRow)
    (handles : List Handle) (after : Scope) : Prop where
  flushes : (flush env).run scope = .ok () flushed
  visible : flushed.visibleRows env model.tableName = .ok rows
  loads : flushed.Loads after
  loads_only : flushed.LoadsOnly env model after
  answers : ∀ row ∈ rows.toList, row.2.Answers resolved
  represents : after.Represents model (rows.toList.filter (·.2.isSelected resolved)) handles

section

variable (hregistry : env.registry.Consistent)
  (hcount : ∀ model ∈ env.registry.models, model.columns.length < 4294967296)

include hregistry hcount

/-- After the flush, once the storage was asked for the rows, those that pass are selected. -/
theorem selectRows_selected {flushed : Scope} (hflush : (flush env).run scope = .ok () flushed)
    (hsound : flushed.SoundRows env deleted) (hmodel : model ∈ env.registry.models)
    (resolved : Option (Column × Value)) {rows : SortedMap UInt64 StoredRow}
    (hrows : flushed.visibleRows env model.tableName = .ok rows) :
    (selectRows env model resolved rows.toList).Ends { flushed with consulted := true }
      (fun handles after => Selected env scope model resolved flushed rows handles after)
      (fun _ => ∃ row ∈ rows.toList, flushed.Stops model resolved row) := by
  have hasked : flushed.Loads { flushed with consulted := true } := .of_same rfl rfl rfl rfl
  refine (selectRows_loads hregistry hcount hmodel resolved (hsound.congr hasked.staged) ?_).mono ?_ ?_
  · rintro ⟨number, row⟩ hrow
    rw [← SortedMap.find?_eq_some_iff.2 hrow]
    exact find?_visibleRows hrows number
  · rintro handles after ⟨hloads, honly, hanswers, hrepresents⟩
    exact ⟨hflush, hrows, hasked.trans hloads, honly, hanswers, hrepresents⟩
  · rintro _ ⟨row, hrow, hstops⟩
    exact ⟨row, hrow, hstops.of_loads hasked⟩

/-- Where the scope can be flushed and has rows, all that are asked for are found, unless one of the rows
stops the look-up. -/
theorem select_of_flush {flushed : Scope} (hflush : (flush env).run scope = .ok () flushed)
    (hsound : flushed.SoundRows env deleted) (hmodel : model ∈ env.registry.models)
    {filter : Option (String × Value)} {resolved : Option (Column × Value)}
    (hresolved : resolveFilter model filter = .ok resolved) {rows : SortedMap UInt64 StoredRow}
    (hrows : flushed.visibleRows env model.tableName = .ok rows) :
    (select env model.name filter).Ends scope
      (fun handles after => Selected env scope model resolved flushed rows handles after)
      (fun _ => ∃ row ∈ rows.toList, flushed.Stops model resolved row) := by
  have hflushed : (flush env).Ends scope (fun _ after => after = flushed) fun _ => False := by
    unfold ScopeM.Ends
    rw [hflush]
  unfold select
  refine ScopeM.ends_bind (hflushed.mono (fun _ _ h => h) fun _ h => h.elim) ?_
  rintro _ _ rfl
  refine ScopeM.ends_lift_bind_of_ok (hregistry.model_eq_ok.2 ⟨hmodel, rfl⟩) ?_
  refine ScopeM.ends_lift_bind_of_ok hresolved (ScopeM.ends_get_bind ?_)
  rw [hrows]
  exact selectRows_selected hregistry hcount hflush hsound hmodel resolved hrows

/-- What a look-up by value returns are the records of the rows that it selects. -/
theorem select_selected
    (hsound : ∀ flushed, (flush env).run scope = .ok () flushed → flushed.SoundRows env deleted)
    (name : String) (filter : Option (String × Value)) :
    (select env name filter).Ends scope
      (fun handles after => ∃ model ∈ env.registry.models, model.name = name ∧
        ∃ resolved, resolveFilter model filter = .ok resolved ∧
        ∃ flushed rows, Selected env scope model resolved flushed rows handles after)
      (fun _ => True) := by
  unfold select
  refine ScopeM.ends_bind (ScopeM.ends_run (flush env) scope) ?_
  intro _ flushed hflush
  refine ScopeM.ends_lift_bind ?_ trivial
  intro model hfound
  obtain ⟨hmodel, hname⟩ := hregistry.model_eq_ok.1 hfound
  refine ScopeM.ends_lift_bind ?_ trivial
  intro resolved hresolved
  refine ScopeM.ends_get_bind (ScopeM.ends_consult_bind ?_ trivial)
  intro rows hrows
  refine (selectRows_selected hregistry hcount hflush (hsound flushed hflush) hmodel resolved
    hrows).mono ?_ fun _ _ => trivial
  intro handles after hselected
  exact ⟨model, hmodel, hname, resolved, hresolved, flushed, rows, hselected⟩

end

end Scope

end RecordStore
