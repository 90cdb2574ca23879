import RecordStore.Proofs.Persistence.Acts
import RecordStore.Proofs.Scope.Commit

/-!
# Committed scopes and their journals

The rows of the storage hold what the journal says (`Journal.Matches`).  A new scope over such a
storage is sound (`Journal.Matches.sound_fresh`), and a scope that was flushed and written leaves a
storage that holds what the journal says after the scope was noted for good
(`Journal.Matches.settle`).
-/

namespace RecordStore

/-! ## Rows of records -/

namespace Scope

variable {env : Environment} {history : History} {scope : Scope} {handle : Handle} {name : String}
  {id : Int64}

theorem rowOf_eq_some_iff :
    scope.rowOf handle = some (name, id) ↔ ∃ entry, scope.entries[handle]? = some entry ∧
      entry.record.modelName = name ∧ entry.record.id = some id := by
  unfold rowOf
  rw [Option.bind_eq_some_iff]
  constructor
  · rintro ⟨entry, hentry, hrow⟩
    rcases Option.map_eq_some_iff.1 hrow with ⟨key, hkey, heq⟩
    cases heq
    exact ⟨entry, hentry, rfl, hkey⟩
  · rintro ⟨entry, hentry, rfl, hid⟩
    exact ⟨entry, hentry, by rw [hid]; rfl⟩

theorem Sound.rowOf_eq_some_iff (h : scope.Sound env history) :
    scope.rowOf handle = some (name, id) ↔ scope.identity.find? (name, id) = some handle := by
  rw [Scope.rowOf_eq_some_iff]
  constructor
  · rintro ⟨entry, hentry, rfl, hid⟩
    exact ((h.entries handle entry hentry).identified id hid).2
  · exact h.identity name id handle

theorem rowAssignment?_eq_some_iff {assignment : (Handle × String) × Value}
    {found : ((String × Int64) × String) × Value} :
    scope.rowAssignment? assignment = some found ↔
      scope.rowOf assignment.1.1 = some found.1.1 ∧ assignment.1.2 = found.1.2 ∧
        assignment.2 = found.2 := by
  unfold rowAssignment?
  rw [Option.map_eq_some_iff]
  constructor
  · rintro ⟨row, hrow, rfl⟩
    exact ⟨hrow, rfl, rfl⟩
  · rintro ⟨hrow, hcolumn, hvalue⟩
    refine ⟨found.1.1, hrow, ?_⟩
    rw [hcolumn, hvalue]

/-- What was assigned to the columns of a row is what was assigned to those of its record. -/
theorem Sound.find?_rowAssignments (h : scope.Sound env history) (name : String) (id : Int64)
    (column : String) (assigned : List ((Handle × String) × Value)) :
    Entries.find? ((name, id), column) (assigned.filterMap scope.rowAssignment?) =
      (scope.identity.find? (name, id)).bind fun handle =>
        Entries.find? (handle, column) assigned := by
  cases hfind : scope.identity.find? (name, id) with
  | none =>
      show _ = none
      rw [Entries.find?_eq_none_iff]
      intro hmem
      rcases List.mem_map.1 hmem with ⟨found, hfound, hkey⟩
      rcases List.mem_filterMap.1 hfound with ⟨assignment, -, hsome⟩
      -- An assignment to the row would be one to a record that the key stands for.
      have hrow := (rowAssignment?_eq_some_iff.1 hsome).1
      rw [hkey, h.rowOf_eq_some_iff, hfind] at hrow
      cases hrow
  | some handle =>
      -- Exactly the assignments to this column of this record become ones to the column of the row.
      refine Entries.find?_filterMap ?_ ?_ assigned
      · intro assignment found hsome
        exact (rowAssignment?_eq_some_iff.1 hsome).2.2.symm
      · rintro ⟨⟨other, changed⟩, value⟩
        constructor
        · rintro heq
          cases heq
          refine ⟨(((name, id), column), value), ?_, rfl⟩
          exact rowAssignment?_eq_some_iff.2 ⟨h.rowOf_eq_some_iff.2 hfind, rfl, rfl⟩
        · rintro ⟨found, hsome, hkey⟩
          rcases rowAssignment?_eq_some_iff.1 hsome with ⟨hrow, hcolumn, -⟩
          rw [hkey, h.rowOf_eq_some_iff, hfind] at hrow
          rw [hkey] at hcolumn
          exact Prod.ext (Option.some.inj hrow).symm hcolumn

end Scope

/-! ## Storages and journals -/

namespace Journal

/-- What holds of a storage with the journal of the scopes that were committed to it. -/
structure Matches (journal : Journal) (registry : Registry) (clock : Supply) (storage : Storage) :
    Prop where
  fits : ∀ model ∈ registry.models, ∀ number row,
    storage.row? model.tableName number = .ok (some row) →
      ∃ columns, row.Holds columns ∧ model.Fits columns
  numbered : ∀ model ∈ registry.models, ∀ number row sequence value,
    storage.row? model.tableName number = .ok (some row) → model.sequence? = some sequence →
      storage.sequenceValue sequence = .ok value → number.toNat ≤ value
  positive : ∀ model ∈ registry.models, ∀ (id : Int64) row,
    storage.row? model.tableName id.toUInt64 = .ok (some row) → 0 ≤ id.toInt
  accounts : ∀ model ∈ registry.models, ∀ (id : Int64) row columns,
    storage.row? model.tableName id.toUInt64 = .ok (some row) → row.Holds columns →
      ∀ column, model.DataColumn column →
        journal.Accounts clock model id column (storedColumn columns column.name)
  /-- The journal says nothing of keys that sequences have not given yet. -/
  given : ∀ model ∈ registry.models, ∀ (id : Int64) column value,
    journal.value? model.name id column = some value → ∀ sequence reached,
      model.sequence? = some sequence → storage.sequenceValue sequence = .ok reached →
        id.toInt ≤ reached

theorem matches_empty {registry : Registry} {clock : Supply} {storage : Storage}
    (hempty : ∀ table number row, storage.row? table number ≠ .ok (some row)) :
    Matches {} registry clock storage where
  fits _ _ number row hrow := absurd hrow (hempty _ number row)
  numbered _ _ number row _ _ hrow := absurd hrow (hempty _ number row)
  positive _ _ id row hrow := absurd hrow (hempty _ _ row)
  accounts _ _ id row _ hrow := absurd hrow (hempty _ _ row)
  given _ _ _ _ _ hvalue := by cases hvalue

variable {journal : Journal} {registry : Registry} {clock : Supply} {storage after : Storage}
  {env : Environment} {scope : Scope} {handle : Handle} {entry : Entry} {model : Model} {id : Int64}
  {row : StoredRow} {column : Column}

namespace Matches

theorem sound_fresh (h : journal.Matches registry clock storage) {supply : Supply}
    (hsupply : supply = { clock with drawn := supply.drawn }) (hassigned : journal.assigned = []) :
    ({ supply } : Scope).Sound { registry, storage } (journal.history clock) where
  entries handle entry hentry := by cases hentry
  identity name id handle hfind := by cases hfind
  rows_fit model hmodel number row hrow := h.fits model hmodel number row hrow
  rows_numbered model hmodel number row sequence value hrow hsequence hvalue :=
    h.numbered model hmodel number row sequence value hrow hsequence hvalue
  staged table id row hstaged := by cases hstaged
  sequences sequence value old hvalue := by cases hvalue
  links handle column target hlink := by cases hlink
  fresh handle _ column := by
    show Entries.find? (handle, column) journal.assigned = none
    rw [hassigned]
    rfl
  supply := hsupply

/-- A storage that has a row has all sequences. -/
theorem sequenceValue_of_row? {table : String} {number : UInt64} {found : Option StoredRow}
    (hrow : storage.row? table number = .ok found) (sequence : String) :
    ∃ value, storage.sequenceValue sequence = .ok value := by
  unfold Storage.row? at hrow
  rcases bind_eq_ok.1 hrow with ⟨contents, hread, -⟩
  refine ⟨contents.sequenceValue sequence, ?_⟩
  unfold Storage.sequenceValue
  rw [hread]
  rfl

/-- Keys of stored rows do not exceed the numbers that their sequence has given. -/
theorem le_sequenceValue (h : journal.Matches registry clock storage)
    (hmodel : model ∈ registry.models)
    (hrow : storage.row? model.tableName id.toUInt64 = .ok (some row)) {sequence : String}
    (hsequence : model.sequence? = some sequence) {value : Nat}
    (hvalue : storage.sequenceValue sequence = .ok value) : id.toInt ≤ value := by
  have hle := h.numbered model hmodel _ row sequence value hrow hsequence hvalue
  have hnumber := toNat_toUInt64 (h.positive model hmodel id row hrow)
  omega

/-! ## Records of stored rows -/

/-- A record of a stored row holds, in every data column that was not assigned, what is loaded from
the storage, and a flush writes the column as it is. -/
theorem unassigned_column (h : journal.Matches env.registry clock env.storage)
    (hregistry : env.registry.Consistent) (hsound : scope.Sound env (journal.history clock))
    (hentry : scope.entries[handle]? = some entry) (hstate : entry.state = .persistent)
    (hid : entry.record.id = some id)
    (hrow : env.storage.row? entry.record.model.tableName id.toUInt64 = .ok (some row))
    (hdata : entry.record.model.DataColumn column)
    (hnone : Entries.find? (handle, column.name) journal.assigned = none) :
    ∃ visible columns stored value,
      scope.visibleRow env entry.record.model.tableName id.toUInt64 = .ok (some visible) ∧
      visible.Holds columns ∧ row.Holds stored ∧
      storedColumn columns column.name = storedColumn stored column.name ∧
      column.load (storedColumn stored column.name) = .ok value ∧
      entry.record.get column.name = .ok value := by
  have hrecord := hsound.entries handle entry hentry
  rcases hregistry.mem_compiled hrecord.registered with ⟨place, -, hcompiled⟩
  rcases hrecord.present (Or.inl hstate) with ⟨key, visible, hkey, hvisible⟩
  rw [hid] at hkey
  cases hkey
  rcases hsound.rows_fit _ hrecord.registered _ visible hvisible with ⟨columns, hholds, -⟩
  -- A mark would come from an assignment.
  have hunmarked : entry.record.isChanged column.name = false := by
    cases hchanged : entry.record.isChanged column.name with
    | false => rfl
    | true =>
        have hlive : entry.state.isLive = true := by rw [hstate]; rfl
        rcases hrecord.marked hlive column hdata hchanged with ⟨value, hlast, -⟩
        rw [history_last, hnone] at hlast
        cases hlast
  cases hrecord.explained hstate id visible columns hid hvisible hholds column hdata hunmarked with
  | assigned v hlast _ =>
      rw [history_last, hnone] at hlast
      cases hlast
  | initial _ hnew _ =>
      -- A row that is stored has a key that was given before.
      rcases sequenceValue_of_row? hrow (sequenceName entry.record.model.tableName) with
        ⟨value, hvalue⟩
      have hlt := hnew _ value hcompiled.sequence?_eq hvalue
      have hle := h.le_sequenceValue hrecord.registered hrow hcompiled.sequence?_eq hvalue
      omega
  | loaded found stored value _ hfound hstored hsame hvalue hload =>
      rw [hrow] at hfound
      cases hfound
      refine ⟨visible, columns, stored, value, hvisible, hholds, hstored, hsame.symm, ?_, ?_⟩
      · rw [hsame]
        exact hload
      · unfold Record.get
        rw [hvalue]

end Matches

/-! ## Noting a scope for good -/

theorem value?_settle (hsound : scope.Sound env (journal.history clock)) (name : String)
    (id : Int64) (column : String) :
    (journal.settle scope).value? name id column =
      ((scope.identity.find? (name, id)).bind fun handle =>
        Entries.find? (handle, column) journal.assigned).or (journal.value? name id column) := by
  unfold value? settle
  rw [Entries.find?_append, hsound.find?_rowAssignments]

theorem inserts_settle_of_inserts {name : String} {n : Nat} (h : journal.Inserts name id n)
    (scope : Scope) : (journal.settle scope).Inserts name id n := by
  rcases h with ⟨first, last, hmem, hinterval⟩
  exact ⟨first, last, List.mem_append_right _ hmem, hinterval⟩

theorem inserts_settle_of_born {name : String} {n : Nat}
    (hrow : scope.rowOf handle = some (name, id))
    (h : (journal.history clock).born handle n) : (journal.settle scope).Inserts name id n := by
  rcases h with ⟨first, last, hmem, hinterval⟩
  refine ⟨first, last, List.mem_append_left _ ?_, hinterval⟩
  refine List.mem_filterMap.2 ⟨(handle, first, last), hmem, ?_⟩
  unfold Scope.rowInsertion?
  rw [hrow]
  rfl

/-- What is not assigned in a scope is accounted for as before. -/
theorem accounts_settle_of_accounts {stored : Value}
    (h : journal.Accounts clock model id column stored)
    (hsame : (journal.settle scope).value? model.name id column.name =
      journal.value? model.name id column.name) :
    (journal.settle scope).Accounts clock model id column stored := by
  unfold Accounts at h ⊢
  rw [hsame]
  cases hvalue : journal.value? model.name id column.name with
  | some value =>
      rw [hvalue] at h
      exact h
  | none =>
      rw [hvalue] at h
      exact h.mono fun n hn => inserts_settle_of_inserts hn scope

/-- A scope that was flushed and written: it is settled, and the storage holds what it saw. -/
structure Written (journal : Journal) (env : Environment) (clock : Supply) (scope : Scope)
    (after : Storage) : Prop where
  sound : scope.Sound env (journal.history clock)
  settled : scope.Settled
  written : scope.WrittenTo env after

namespace Written

/-- The record of a row that is visible is stored and has no marks. -/
theorem persistent_of_visible (h : journal.Written env clock scope after)
    (hentry : scope.entries[handle]? = some entry) (hid : entry.record.id = some id)
    (hvisible : scope.visibleRow env entry.record.model.tableName id.toUInt64 = .ok (some row)) :
    entry.state = .persistent ∧ entry.record.changed = ∅ := by
  rcases h.settled handle entry hentry with hpersistent | hremoved
  · exact hpersistent
  · exact absurd hvisible
      ((h.sound.entries handle entry hentry).absent (Or.inr hremoved) id row hid)

/-- A row that is visible belongs to no record and is stored as it was, or belongs to a record. -/
theorem visible_cases (h : journal.Written env clock scope after)
    (hregistry : env.registry.Consistent) (hmodel : model ∈ env.registry.models)
    (hvisible : scope.visibleRow env model.tableName id.toUInt64 = .ok (some row)) :
    (scope.identity.find? (model.name, id) = none ∧
      env.storage.row? model.tableName id.toUInt64 = .ok (some row)) ∨
    ∃ (handle : Handle) (entry : Entry), scope.identity.find? (model.name, id) = some handle ∧
      scope.entries[handle]? = some entry ∧ entry.record.model = model ∧
      entry.record.id = some id ∧ entry.state = .persistent ∧ entry.record.changed = ∅ := by
  cases hfind : scope.identity.find? (model.name, id) with
  | none =>
      refine Or.inl ⟨rfl, ?_⟩
      rw [← h.sound.visibleRow_of_unidentified hregistry hmodel hfind]
      exact hvisible
  | some handle =>
      rcases h.sound.identity model.name id handle hfind with ⟨entry, hentry, hname, hid⟩
      have hsame :=
        hregistry.eq_of_name (h.sound.entries handle entry hentry).registered hmodel hname
      rw [← hsame] at hvisible
      have hstate := h.persistent_of_visible hentry hid hvisible
      exact Or.inr ⟨handle, entry, rfl, hentry, hsame, hid, hstate.1, hstate.2⟩

theorem accounts (h : journal.Written env clock scope after)
    (hmatches : journal.Matches env.registry clock env.storage)
    (hregistry : env.registry.Consistent) (hmodel : model ∈ env.registry.models)
    (hsequences : ∀ sequence, ∃ value, env.storage.sequenceValue sequence = .ok value)
    (hvisible : scope.visibleRow env model.tableName id.toUInt64 = .ok (some row))
    {columns : List (String × Value)} (hholds : row.Holds columns)
    (hdata : model.DataColumn column) :
    (journal.settle scope).Accounts clock model id column (storedColumn columns column.name) := by
  have hvalue := value?_settle h.sound model.name id column.name
  rcases h.visible_cases hregistry hmodel hvisible with ⟨hfind, hrow⟩ |
    ⟨handle, entry, hfind, hentry, hsame, hid, hstate, hchanged⟩
  · rw [hfind] at hvalue
    exact accounts_settle_of_accounts
      (hmatches.accounts model hmodel id row columns hrow hholds column hdata) hvalue
  · have hrecord := h.sound.entries handle entry hentry
    rcases hregistry.mem_compiled hmodel with ⟨place, -, hcompiled⟩
    rw [hfind] at hvalue
    change _ = (Entries.find? (handle, column.name) journal.assigned).or _ at hvalue
    subst hsame
    -- After the flush no column is marked, so the history explains every stored form.
    have hunmarked : entry.record.isChanged column.name = false := by
      unfold Record.isChanged
      rw [hchanged]
      rfl
    cases hrecord.explained hstate id row columns hid hvisible hholds column hdata hunmarked with
    | assigned v hlast hbind =>
        rw [history_last] at hlast
        rw [hlast] at hvalue
        unfold Accounts
        rw [hvalue]
        exact hbind
    | initial hlast hnew hholds =>
        rw [history_last] at hlast
        rcases hsequences (sequenceName entry.record.model.tableName) with ⟨reached, hreached⟩
        have hlt := hnew _ reached hcompiled.sequence?_eq hreached
        -- Nothing was committed for the key, which is new.
        have hunknown : journal.value? entry.record.model.name id column.name = none := by
          cases hknown : journal.value? entry.record.model.name id column.name with
          | none => rfl
          | some value =>
              have hle := hmatches.given _ hmodel id column.name value hknown _ reached
                hcompiled.sequence?_eq hreached
              omega
        rw [hlast, hunknown] at hvalue
        unfold Accounts
        rw [hvalue]
        have hrow : scope.rowOf handle = some (entry.record.model.name, id) :=
          h.sound.rowOf_eq_some_iff.2 hfind
        exact hholds.mono fun n hn => inserts_settle_of_born hrow hn.1
    | loaded found stored value hlast hfound hstored heq _ _ =>
        rw [history_last] at hlast
        rw [hlast] at hvalue
        rw [← heq]
        exact accounts_settle_of_accounts
          (hmatches.accounts _ hmodel id found stored hfound hstored column hdata) hvalue

/-- A column that was not assigned in the scope is written as it was stored. -/
theorem unchanged_column (h : journal.Written env clock scope after)
    (hmatches : journal.Matches env.registry clock env.storage)
    (hregistry : env.registry.Consistent) (hmodel : model ∈ env.registry.models)
    (hrow : env.storage.row? model.tableName id.toUInt64 = .ok (some row)) {new : StoredRow}
    (hnew : after.row? model.tableName id.toUInt64 = .ok (some new))
    (hdata : model.DataColumn column)
    (hunassigned : ∀ handle value, scope.rowOf handle = some (model.name, id) →
      ((handle, column.name), value) ∉ journal.assigned) :
    ∃ old written, row.Holds old ∧ new.Holds written ∧
      storedColumn written column.name = storedColumn old column.name := by
  rw [h.written.row] at hnew
  rcases h.visible_cases hregistry hmodel hnew with ⟨-, hstored⟩ |
    ⟨handle, entry, hfind, hentry, hsame, hid, hstate, -⟩
  · -- No record stands for the row, which nobody has touched.
    rw [hrow] at hstored
    cases hstored
    rcases hmatches.fits model hmodel _ row hrow with ⟨columns, hholds, -⟩
    exact ⟨columns, columns, hholds, hholds, rfl⟩
  · subst hsame
    have hnone : Entries.find? (handle, column.name) journal.assigned = none :=
      Entries.find?_eq_none_of_not_mem fun value =>
        hunassigned handle value (h.sound.rowOf_eq_some_iff.2 hfind)
    rcases hmatches.unassigned_column hregistry h.sound hentry hstate hid hrow hdata hnone with
      ⟨visible, columns, stored, _, hvisible, hholds, hstored, heq, -, -⟩
    rw [hnew] at hvisible
    cases hvisible
    exact ⟨stored, columns, hstored, hholds, heq⟩

/-- After a scope was written, the storage matches the journal in which it was noted for good. -/
theorem settle (h : journal.Written env clock scope after)
    (hmatches : journal.Matches env.registry clock env.storage)
    (hregistry : env.registry.Consistent) :
    (journal.settle scope).Matches env.registry clock after := by
  constructor
  case fits =>
    intro model hmodel number row hrow
    rw [h.written.row] at hrow
    exact h.sound.rows_fit model hmodel number row hrow
  case numbered =>
    intro model hmodel number row sequence value hrow hsequence hvalue
    rw [h.written.row] at hrow
    rcases h.written.sequenceValue_le hvalue with ⟨_, reached, -, hreached, -, hle⟩
    exact Nat.le_trans
      (h.sound.rows_numbered model hmodel number row sequence reached hrow hsequence hreached) hle
  case positive =>
    intro model hmodel id row hrow
    rw [h.written.row] at hrow
    rcases h.visible_cases hregistry hmodel hrow with ⟨-, hstored⟩ |
      ⟨handle, entry, -, hentry, -, hid, -, -⟩
    · exact hmatches.positive model hmodel id row hstored
    · exact ((h.sound.entries handle entry hentry).identified id hid).1
  case accounts =>
    intro model hmodel id row columns hrow hholds column hdata
    have hsequences : ∀ sequence, ∃ value, env.storage.sequenceValue sequence = .ok value := by
      intro sequence
      rcases Matches.sequenceValue_of_row? hrow sequence with ⟨value, hvalue⟩
      rcases h.written.sequenceValue_le hvalue with ⟨old, _, hold, -, -, -⟩
      exact ⟨old, hold⟩
    rw [h.written.row] at hrow
    exact h.accounts hmatches hregistry hmodel hsequences hrow hholds hdata
  case given =>
    intro model hmodel id column value hvalue sequence last hsequence hlast
    rcases h.written.sequenceValue_le hlast with ⟨old, reached, hold, hreached, hleOld, hleReached⟩
    rw [value?_settle h.sound] at hvalue
    -- The key was committed before, or it is that of a record of the scope.
    cases hfind : scope.identity.find? (model.name, id) with
    | none =>
        rw [hfind] at hvalue
        have hle := hmatches.given model hmodel id column value hvalue sequence old hsequence hold
        omega
    | some handle =>
        rcases h.sound.identity model.name id handle hfind with ⟨entry, hentry, hname, hid⟩
        have hrecord := h.sound.entries handle entry hentry
        have hsame := hregistry.eq_of_name hrecord.registered hmodel hname
        rw [← hsame] at hsequence
        have hle := hrecord.numbered id sequence reached hid hsequence hreached
        omega

end Written

end Journal

end RecordStore
