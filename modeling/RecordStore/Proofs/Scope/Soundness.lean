import RecordStore.Proofs.Model.Rows
import RecordStore.Proofs.Registry.Consistency
import RecordStore.Proofs.SortedMap
import RecordStore.Scope.Relation

/-!
# Sound scopes

`Scope.Sound` is the invariant of the scopes of a database.  It relates the records of a scope with
the rows that are visible in it and with what was assigned so far (`History`): a marked column holds
the last value assigned to it, and a column without a mark has a stored form that is explained by
the last assignment, by the default of a new row, or by the row in the storage (`History.Explains`).

Most steps of an action change nothing that the invariant speaks of.  They are steps after which a
scope follows the scope before (`Scope.Follows`), and `Scope.Sound.of_follows` covers all of them.
-/

namespace RecordStore

/-! ## Histories -/

/-- What happened in a scope, as far as its rows depend on it. -/
structure History where
  /-- Where fresh codes and times come from. -/
  clock : Supply
  /-- The last value assigned to a column of a record. -/
  last : Handle → String → Option Value
  /-- Whether the record may have been inserted when the supply had come to a number. -/
  born : Handle → Nat → Prop

/-- What a column of a new row holds without an assignment: its default, evaluated at a moment. -/
def Column.HoldsInitial (column : Column) (clock : Supply) (table : String) (moment : Nat → Prop)
    (stored : Value) : Prop :=
  match column.default with
  | some default => ∃ n, moment n ∧
      column.bind table (default.evaluate { clock with drawn := n }).1 = .ok stored
  | none => stored = .null

/-- Where the stored form of a column of a record comes from. -/
inductive History.Explains (history : History) (env : Environment) (drawn : Nat) (handle : Handle)
    (record : Record) (id : Int64) (column : Column) (stored : Value) : Prop where
  | assigned (v : Value) : history.last handle column.name = some v →
      column.bind record.model.tableName v = .ok stored →
      Explains history env drawn handle record id column stored
  | initial : history.last handle column.name = none →
      (∀ sequence value, record.model.sequence? = some sequence →
        env.storage.sequenceValue sequence = .ok value → value < id.toInt) →
      column.HoldsInitial history.clock record.model.tableName
        (fun n => history.born handle n ∧ n ≤ drawn) stored →
      Explains history env drawn handle record id column stored
  | loaded (row : StoredRow) (columns : List (String × Value)) (value : Value) :
      history.last handle column.name = none →
      env.storage.row? record.model.tableName id.toUInt64 = .ok (some row) →
      row.Holds columns → storedColumn columns column.name = stored →
      record.values.find? column.name = some value → column.load stored = .ok value →
      Explains history env drawn handle record id column stored

/-! ## The invariant -/

/-- What holds of one record of a scope. -/
structure Scope.EntrySound (env : Environment) (history : History) (scope : Scope) (handle : Handle)
    (entry : Entry) : Prop where
  registered : entry.record.model ∈ env.registry.models
  identified : ∀ id, entry.record.id = some id → 0 ≤ id.toInt ∧
    scope.identity.find? (entry.record.modelName, id) = some handle
  /-- Keys do not exceed the numbers that their sequence has given. -/
  numbered : ∀ id sequence value, entry.record.id = some id →
    entry.record.model.sequence? = some sequence → scope.sequenceValue env sequence = .ok value →
    id.toInt ≤ value
  /-- The key of a new record was given in this scope. -/
  numbered_here : ∀ id sequence value, entry.state = .pending → entry.record.id = some id →
    entry.record.model.sequence? = some sequence →
    env.storage.sequenceValue sequence = .ok value → value < id.toInt
  present : entry.state = .persistent ∨ entry.state = .deleted → ∃ id row,
    entry.record.id = some id ∧
      scope.visibleRow env entry.record.model.tableName id.toUInt64 = .ok (some row)
  absent : entry.state = .pending ∨ entry.state = .removed → ∀ id row,
    entry.record.id = some id →
      scope.visibleRow env entry.record.model.tableName id.toUInt64 ≠ .ok (some row)
  /-- A marked column holds the last value assigned to it. -/
  marked : entry.state.isLive = true → ∀ column, entry.record.model.DataColumn column →
    entry.record.isChanged column.name = true → ∃ value,
      history.last handle column.name = some value ∧
        entry.record.values.find? column.name = some value
  unassigned : entry.state = .pending → ∀ column, entry.record.model.DataColumn column →
    entry.record.isChanged column.name = false → history.last handle column.name = none
  /-- The stored form of a column without a mark is explained. -/
  explained : entry.state = .persistent → ∀ id row columns, entry.record.id = some id →
    scope.visibleRow env entry.record.model.tableName id.toUInt64 = .ok (some row) →
    row.Holds columns → ∀ column, entry.record.model.DataColumn column →
      entry.record.isChanged column.name = false →
        history.Explains env scope.supply.drawn handle entry.record id column
          (storedColumn columns column.name)

/-- Whether a column of a record holds references. -/
def Scope.IsReference (scope : Scope) (handle : Handle) (column : String) : Prop :=
  ∃ entry, scope.entries[handle]? = some entry ∧
    ∃ relationship ∈ entry.record.model.relationships, relationship.column = column

/-- What holds of every scope of a database at any time. -/
structure Scope.Sound (env : Environment) (history : History) (scope : Scope) : Prop where
  entries : ∀ handle entry, scope.entries[handle]? = some entry →
    scope.EntrySound env history handle entry
  identity : ∀ name id handle, scope.identity.find? (name, id) = some handle →
    ∃ entry, scope.entries[handle]? = some entry ∧ entry.record.modelName = name ∧
      entry.record.id = some id
  rows_fit : ∀ model ∈ env.registry.models, ∀ id row,
    scope.visibleRow env model.tableName id = .ok (some row) →
      ∃ columns, row.Holds columns ∧ model.Fits columns
  rows_numbered : ∀ model ∈ env.registry.models, ∀ id row sequence value,
    scope.visibleRow env model.tableName id = .ok (some row) →
      model.sequence? = some sequence → scope.sequenceValue env sequence = .ok value →
        id.toNat ≤ value
  /-- Every staged row belongs to a record. -/
  staged : ∀ table id row, scope.staged.find? (table, id) = some row →
    ∃ (handle : Handle) (entry : Entry) (key : Int64), scope.entries[handle]? = some entry ∧
      entry.record.model.tableName = table ∧ entry.record.id = some key ∧ key.toUInt64 = id
  /-- Sequences are not behind the storage. -/
  sequences : ∀ sequence value old, scope.sequences.find? sequence = some value →
    env.storage.sequenceValue sequence = .ok old → old ≤ value
  links : ∀ handle column target, scope.links.find? (handle, column) = some target →
    scope.IsReference handle column
  /-- Nothing was assigned to records that are not there. -/
  fresh : ∀ handle, scope.entries.length ≤ handle → ∀ column, history.last handle column = none
  supply : scope.supply = { history.clock with drawn := scope.supply.drawn }

/-- New records may be inserted from now on. -/
def Scope.Ready (history : History) (scope : Scope) : Prop :=
  ∀ handle entry, scope.entries[handle]? = some entry → entry.state = .pending →
    ∀ n, scope.supply.drawn ≤ n → history.born handle n

/-- The property that actions keep when they neither assign values nor add new records. -/
def Scope.SoundReady (env : Environment) (history : History) (scope : Scope) : Prop :=
  scope.Sound env history ∧ scope.Ready history

/-! ## Records that go on -/

/-- Every record of a scope goes on in another one, with its model and the key that it has. -/
def Scope.Carries (before after : Scope) : Prop :=
  ∀ (handle : Handle) (entry : Entry), before.entries[handle]? = some entry →
    ∃ new, after.entries[handle]? = some new ∧ new.record.model = entry.record.model ∧
      ∀ id, entry.record.id = some id → new.record.id = some id

namespace Scope.Carries

variable {before after last : Scope}

theorem trans (h : before.Carries after) (h' : after.Carries last) : before.Carries last := by
  intro handle entry hentry
  obtain ⟨new, hnew, hmodel, hid⟩ := h handle entry hentry
  obtain ⟨final, hfinal, hmodel', hid'⟩ := h' handle new hnew
  exact ⟨final, hfinal, hmodel'.trans hmodel, fun id hkey => hid' id (hid id hkey)⟩

/-- The record that a key stands for. -/
theorem identity (h : before.Carries after) {name : String} {id : Int64} {handle : Handle}
    (hentry : ∃ entry, before.entries[handle]? = some entry ∧ entry.record.modelName = name ∧
      entry.record.id = some id) :
    ∃ entry, after.entries[handle]? = some entry ∧ entry.record.modelName = name ∧
      entry.record.id = some id := by
  rcases hentry with ⟨old, hold, hname, hid⟩
  rcases h handle old hold with ⟨new, hnew, hmodel, hkey⟩
  have hsame : new.record.modelName = old.record.modelName := congrArg Model.name hmodel
  exact ⟨new, hnew, hsame.trans hname, hkey id hid⟩

/-- The record that a staged row belongs to. -/
theorem staged (h : before.Carries after) {table : String} {number : UInt64}
    (hentry : ∃ (handle : Handle) (entry : Entry) (key : Int64),
      before.entries[handle]? = some entry ∧ entry.record.model.tableName = table ∧
        entry.record.id = some key ∧ key.toUInt64 = number) :
    ∃ (handle : Handle) (entry : Entry) (key : Int64),
      after.entries[handle]? = some entry ∧ entry.record.model.tableName = table ∧
        entry.record.id = some key ∧ key.toUInt64 = number := by
  rcases hentry with ⟨handle, old, key, hold, htable, hid, hnumber⟩
  rcases h handle old hold with ⟨new, hnew, hmodel, hkey⟩
  have hsame : new.record.model.tableName = old.record.model.tableName :=
    congrArg Model.tableName hmodel
  exact ⟨handle, new, key, hnew, hsame.trans htable, hkey key hid, hnumber⟩

theorem isReference (h : before.Carries after) {handle : Handle} {column : String}
    (hreference : before.IsReference handle column) : after.IsReference handle column := by
  rcases hreference with ⟨old, hold, hrelationship⟩
  rcases h handle old hold with ⟨new, hnew, hmodel, -⟩
  refine ⟨new, hnew, ?_⟩
  rw [hmodel]
  exact hrelationship

end Scope.Carries

/-! ## Steps that change nothing of importance -/

/-- A record that differs at most in columns of references and in defaults that were put in before
it is stored. -/
structure Entry.Follows (before after : Entry) : Prop where
  state : after.state = before.state
  model : after.record.model = before.record.model
  id : after.record.id = before.record.id
  isChanged : ∀ column, before.record.model.DataColumn column →
    after.record.isChanged column.name = before.record.isChanged column.name
  values : ∀ column, before.record.model.DataColumn column →
    before.record.isChanged column.name = true ∨ before.state ≠ .pending →
      after.record.values.find? column.name = before.record.values.find? column.name

theorem Entry.Follows.refl (entry : Entry) : entry.Follows entry where
  state := rfl
  model := rfl
  id := rfl
  isChanged _ _ := rfl
  values _ _ _ := rfl

theorem Entry.Follows.trans {a b c : Entry} (hab : a.Follows b) (hbc : b.Follows c) :
    a.Follows c where
  state := hbc.state.trans hab.state
  model := hbc.model.trans hab.model
  id := hbc.id.trans hab.id
  isChanged column hdata := by
    rw [hbc.isChanged column (hab.model ▸ hdata), hab.isChanged column hdata]
  values column hdata hkept := by
    rw [hbc.values column (hab.model ▸ hdata), hab.values column hdata hkept]
    rw [hab.isChanged column hdata, hab.state]
    exact hkept

/-- A scope that may have drawn from its supply, filled or forgotten references, and learnt of
tables, but has the same records with the same keys, and the same rows. -/
structure Scope.Follows (before after : Scope) : Prop where
  entries : ∀ handle : Nat, Option.Rel Entry.Follows before.entries[handle]? after.entries[handle]?
  identity : after.identity = before.identity
  staged : after.staged = before.staged
  sequences : after.sequences = before.sequences
  links : ∀ handle column target, after.links.find? (handle, column) = some target →
    (∃ other, before.links.find? (handle, column) = some other) ∨ before.IsReference handle column
  supply : after.supply = { before.supply with drawn := after.supply.drawn }
  drawn : before.supply.drawn ≤ after.supply.drawn

namespace Scope.Follows

variable {before after last : Scope}

theorem refl (scope : Scope) : scope.Follows scope where
  entries handle := by
    cases scope.entries[handle]? with
    | none => exact .none
    | some entry => exact .some (.refl entry)
  identity := rfl
  staged := rfl
  sequences := rfl
  links _ _ target h := Or.inl ⟨target, h⟩
  supply := rfl
  drawn := Nat.le_refl _

/-- The record that a record comes from. -/
theorem back (h : before.Follows after) {handle : Handle} {entry : Entry}
    (hentry : after.entries[handle]? = some entry) :
    ∃ old, before.entries[handle]? = some old ∧ old.Follows entry := by
  have hrel := h.entries handle
  rw [hentry] at hrel
  cases hold : before.entries[handle]? with
  | none =>
      rw [hold] at hrel
      cases hrel
  | some old =>
      rw [hold] at hrel
      cases hrel with
      | some hfollows => exact ⟨old, rfl, hfollows⟩

/-- What has become of a record. -/
theorem forth (h : before.Follows after) {handle : Handle} {entry : Entry}
    (hentry : before.entries[handle]? = some entry) :
    ∃ new, after.entries[handle]? = some new ∧ entry.Follows new := by
  have hrel := h.entries handle
  rw [hentry] at hrel
  cases hnew : after.entries[handle]? with
  | none =>
      rw [hnew] at hrel
      cases hrel
  | some new =>
      rw [hnew] at hrel
      cases hrel with
      | some hfollows => exact ⟨new, rfl, hfollows⟩

theorem carries (h : before.Follows after) : before.Carries after := by
  intro handle old hold
  rcases h.forth hold with ⟨new, hnew, hfollows⟩
  exact ⟨new, hnew, hfollows.model, fun id hid => hfollows.id.trans hid⟩

theorem isReference (h : before.Follows after) {handle : Handle} {column : String}
    (hreference : before.IsReference handle column) : after.IsReference handle column :=
  h.carries.isReference hreference

theorem isReference_back (h : before.Follows after) {handle : Handle} {column : String}
    (hreference : after.IsReference handle column) : before.IsReference handle column := by
  rcases hreference with ⟨new, hnew, hrelationship⟩
  rcases h.back hnew with ⟨old, hold, hfollows⟩
  refine ⟨old, hold, ?_⟩
  rw [← hfollows.model]
  exact hrelationship

theorem trans (hab : before.Follows after) (hbc : after.Follows last) : before.Follows last where
  entries handle := by
    cases hentry : last.entries[handle]? with
    | some entry =>
        rcases hbc.back hentry with ⟨middle, hmiddle, hlate⟩
        rcases hab.back hmiddle with ⟨old, hold, hearly⟩
        rw [hold]
        exact .some (hearly.trans hlate)
    | none =>
        cases hold : before.entries[handle]? with
        | none => exact .none
        | some old =>
            rcases hab.forth hold with ⟨middle, hmiddle, -⟩
            rcases hbc.forth hmiddle with ⟨new, hnew, -⟩
            rw [hentry] at hnew
            cases hnew
  identity := hbc.identity.trans hab.identity
  staged := hbc.staged.trans hab.staged
  sequences := hbc.sequences.trans hab.sequences
  links handle column target hlink := by
    rcases hbc.links handle column target hlink with ⟨other, hother⟩ | hreference
    · exact hab.links handle column other hother
    · exact Or.inr (hab.isReference_back hreference)
  supply := by
    rw [hbc.supply, hab.supply]
  drawn := Nat.le_trans hab.drawn hbc.drawn

theorem length_eq (h : before.Follows after) : after.entries.length = before.entries.length := by
  apply Nat.le_antisymm
  · by_contra hlt
    have hentry := List.getElem?_eq_getElem (Nat.lt_of_not_le hlt)
    rcases h.back hentry with ⟨old, hold, -⟩
    rw [List.getElem?_eq_none (Nat.le_refl _)] at hold
    cases hold
  · by_contra hlt
    have hentry := List.getElem?_eq_getElem (Nat.lt_of_not_le hlt)
    rcases h.forth hentry with ⟨new, hnew, -⟩
    rw [List.getElem?_eq_none (Nat.le_refl _)] at hnew
    cases hnew

theorem visibleRow (h : before.Follows after) (env : Environment) (table : String) (id : UInt64) :
    after.visibleRow env table id = before.visibleRow env table id := by
  unfold Scope.visibleRow
  rw [h.staged]

theorem sequenceValue (h : before.Follows after) (env : Environment) (sequence : String) :
    after.sequenceValue env sequence = before.sequenceValue env sequence := by
  unfold Scope.sequenceValue
  rw [h.sequences]

end Scope.Follows

/-! ## Soundness through such steps -/

theorem Column.HoldsInitial.mono {column : Column} {clock : Supply} {table : String}
    {moment moment' : Nat → Prop} {stored : Value}
    (h : column.HoldsInitial clock table moment stored)
    (hmoment : ∀ n, moment n → moment' n) : column.HoldsInitial clock table moment' stored := by
  unfold HoldsInitial at h ⊢
  cases hdefault : column.default with
  | none =>
      rw [hdefault] at h
      exact h
  | some default =>
      rw [hdefault] at h
      rcases h with ⟨n, hn, hbind⟩
      exact ⟨n, hmoment n hn, hbind⟩

namespace History.Explains

variable {history : History} {env : Environment} {drawn drawn' : Nat} {handle : Handle}
  {record record' : Record} {id : Int64} {column : Column} {stored : Value}

/-- An explanation stays right while the record keeps its value of the column. -/
theorem transfer (h : history.Explains env drawn handle record id column stored)
    (hmodel : record'.model = record.model)
    (hvalue : record'.values.find? column.name = record.values.find? column.name)
    (hdrawn : drawn ≤ drawn') : history.Explains env drawn' handle record' id column stored := by
  cases h with
  | assigned v hlast hbind =>
      rw [← hmodel] at hbind
      exact .assigned v hlast hbind
  | initial hlast hnew hholds =>
      rw [← hmodel] at hnew hholds
      exact .initial hlast hnew (hholds.mono fun n hn => ⟨hn.1, Nat.le_trans hn.2 hdrawn⟩)
  | loaded row columns value hlast hrow hcolumns hstored hfound hload =>
      rw [← hmodel] at hrow
      rw [← hvalue] at hfound
      exact .loaded row columns value hlast hrow hcolumns hstored hfound hload

end History.Explains

namespace Scope

variable {env : Environment} {history : History} {scope scope' : Scope} {handle : Handle}
  {entry entry' : Entry}

/-- A record stays sound while its key stands for it, its row is the same, and sequences do not go
back. -/
theorem EntrySound.transfer (h : scope.EntrySound env history handle entry)
    (hfollows : entry.Follows entry')
    (hidentity : ∀ id, entry.record.id = some id →
      scope'.identity.find? (entry.record.modelName, id) =
        scope.identity.find? (entry.record.modelName, id))
    (hrow : ∀ id, entry.record.id = some id →
      scope'.visibleRow env entry.record.model.tableName id.toUInt64 =
        scope.visibleRow env entry.record.model.tableName id.toUInt64)
    (hsequence : ∀ sequence value, scope'.sequenceValue env sequence = .ok value →
      ∃ earlier, scope.sequenceValue env sequence = .ok earlier ∧ earlier ≤ value)
    (hdrawn : scope.supply.drawn ≤ scope'.supply.drawn) :
    scope'.EntrySound env history handle entry' where
  registered := by
    rw [hfollows.model]
    exact h.registered
  identified id hid := by
    rw [hfollows.id] at hid
    have hname : entry'.record.modelName = entry.record.modelName :=
      congrArg Model.name hfollows.model
    rw [hname, hidentity id hid]
    exact h.identified id hid
  numbered id sequence value hid hseq hvalue := by
    rw [hfollows.id] at hid
    rw [hfollows.model] at hseq
    -- The sequence may have come further, never back.
    rcases hsequence sequence value hvalue with ⟨earlier, hearlier, hle⟩
    have hearlierLe := h.numbered id sequence earlier hid hseq hearlier
    omega
  numbered_here id sequence value hstate hid hseq hvalue := by
    rw [hfollows.state] at hstate
    rw [hfollows.id] at hid
    rw [hfollows.model] at hseq
    exact h.numbered_here id sequence value hstate hid hseq hvalue
  present hstate := by
    rw [hfollows.state] at hstate
    rw [hfollows.id, hfollows.model]
    rcases h.present hstate with ⟨id, row, hid, hvisible⟩
    exact ⟨id, row, hid, (hrow id hid).trans hvisible⟩
  absent hstate id row hid := by
    rw [hfollows.state] at hstate
    rw [hfollows.id] at hid
    rw [hfollows.model, hrow id hid]
    exact h.absent hstate id row hid
  marked hlive column hdata hchanged := by
    rw [hfollows.state] at hlive
    rw [hfollows.model] at hdata
    rw [hfollows.isChanged column hdata] at hchanged
    rw [hfollows.values column hdata (Or.inl hchanged)]
    exact h.marked hlive column hdata hchanged
  unassigned hstate column hdata hchanged := by
    rw [hfollows.state] at hstate
    rw [hfollows.model] at hdata
    rw [hfollows.isChanged column hdata] at hchanged
    exact h.unassigned hstate column hdata hchanged
  explained hstate id row columns hid hvisible hcolumns column hdata hchanged := by
    rw [hfollows.state] at hstate
    rw [hfollows.id] at hid
    rw [hfollows.model] at hdata hvisible
    rw [hrow id hid] at hvisible
    rw [hfollows.isChanged column hdata] at hchanged
    -- The record is stored, so its data columns hold what they held.
    have hkept : entry.state ≠ .pending := by
      rw [hstate]
      decide
    exact (h.explained hstate id row columns hid hvisible hcolumns column hdata hchanged).transfer
      hfollows.model (hfollows.values column hdata (Or.inr hkept)) hdrawn

/-- Steps that change nothing of importance keep a scope sound. -/
theorem Sound.of_follows (h : scope.Sound env history) (hfollows : scope.Follows scope') :
    scope'.Sound env history where
  entries handle entry hentry := by
    rcases hfollows.back hentry with ⟨old, hold, hsame⟩
    refine (h.entries handle old hold).transfer hsame ?_ ?_ ?_ hfollows.drawn
    · intro id _
      rw [hfollows.identity]
    · intro id _
      exact hfollows.visibleRow env _ _
    · intro sequence value hvalue
      rw [hfollows.sequenceValue] at hvalue
      exact ⟨value, hvalue, Nat.le_refl value⟩
  identity name id handle hfind := by
    rw [hfollows.identity] at hfind
    exact hfollows.carries.identity (h.identity name id handle hfind)
  rows_fit model hmodel id row hvisible := by
    rw [hfollows.visibleRow] at hvisible
    exact h.rows_fit model hmodel id row hvisible
  rows_numbered model hmodel id row sequence value hvisible hseq hvalue := by
    rw [hfollows.visibleRow] at hvisible
    rw [hfollows.sequenceValue] at hvalue
    exact h.rows_numbered model hmodel id row sequence value hvisible hseq hvalue
  staged table id row hstaged := by
    rw [hfollows.staged] at hstaged
    exact hfollows.carries.staged (h.staged table id row hstaged)
  sequences sequence value old hvalue hold := by
    rw [hfollows.sequences] at hvalue
    exact h.sequences sequence value old hvalue hold
  links handle column target hlink := by
    rcases hfollows.links handle column target hlink with ⟨other, hother⟩ | hreference
    · exact hfollows.isReference (h.links handle column other hother)
    · exact hfollows.isReference hreference
  fresh handle hhandle column := by
    rw [hfollows.length_eq] at hhandle
    exact h.fresh handle hhandle column
  supply := by
    rw [hfollows.supply, h.supply]

theorem Ready.of_follows (h : scope.Ready history) (hfollows : scope.Follows scope') :
    scope'.Ready history := by
  intro handle entry hentry hstate n hn
  rcases hfollows.back hentry with ⟨old, hold, hsame⟩
  exact h handle old hold (hsame.state ▸ hstate) n (Nat.le_trans hfollows.drawn hn)

theorem SoundReady.of_follows (h : scope.SoundReady env history) (hfollows : scope.Follows scope') :
    scope'.SoundReady env history :=
  ⟨h.1.of_follows hfollows, h.2.of_follows hfollows⟩

end Scope

end RecordStore
