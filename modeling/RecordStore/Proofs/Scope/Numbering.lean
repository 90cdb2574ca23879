import RecordStore.Proofs.Scope.Endings
import RecordStore.Proofs.Scope.Soundness

/-!
# Keys of new records

A new record gets the next number of the sequence of its table, which is greater than all keys in
use.  So the key stands for no row yet and for no other record (`Scope.Sound.giveKey`).

All that giving a key can come to is said once (`Scope.KeyGiven`, `Scope.KeyRefused`); what it keeps is
derived from that.
-/

namespace RecordStore

/-! ## Keys and numbers of rows -/

theorem toNat_toUInt64 {id : Int64} (h : 0 ≤ id.toInt) : (id.toUInt64.toNat : Int) = id.toInt := by
  have hle : 0 ≤ id := Int64.le_iff_toInt_le.2 h
  rw [Int64.toNat_toUInt64_of_le hle]
  exact Int64.cast_toNatClampNeg id hle

theorem toUInt64_injective {a b : Int64} (h : a.toUInt64 = b.toUInt64) : a = b := by
  rcases a with ⟨a⟩
  rcases b with ⟨b⟩
  exact congrArg Int64.ofUInt64 h

theorem rowIdOf_eq_ok {id : Int64} {number : UInt64} :
    rowIdOf id = .ok number ↔ 0 ≤ id.toInt ∧ id.toUInt64 = number := by
  unfold rowIdOf
  by_cases hnegative : id.toInt < 0
  · rw [if_pos hnegative]
    constructor
    · intro h
      cases h
    · rintro ⟨hle, -⟩
      omega
  · rw [if_neg hnegative]
    constructor
    · intro h
      cases h
      exact ⟨by omega, rfl⟩
    · rintro ⟨-, rfl⟩
      rfl

/-! ## Records that get a key -/

namespace Record

theorem assignId_model (record : Record) (id : Int64) :
    (record.assignId id).model = record.model := by
  unfold assignId
  cases record.model.primaryKey? with
  | none => rfl
  | some key => rfl

theorem assignId_id (record : Record) (id : Int64) : (record.assignId id).id = some id := by
  unfold assignId
  cases record.model.primaryKey? with
  | none => rfl
  | some key => rfl

theorem assignId_changed (record : Record) (id : Int64) :
    (record.assignId id).changed = record.changed := by
  unfold assignId
  cases record.model.primaryKey? with
  | none => rfl
  | some key => rfl

theorem find?_assignId {record : Record} {id : Int64} {name : String}
    (hname : ∀ key, record.model.primaryKey? = some key → name ≠ key.name) :
    (record.assignId id).values.find? name = record.values.find? name := by
  unfold assignId
  cases hkey : record.model.primaryKey? with
  | none => rfl
  | some key =>
      show (record.values.insert key.name (.integer id)).find? name = _
      rw [SortedMap.find?_insert, if_neg (hname key hkey)]

end Record

namespace Scope

/-! ## Small steps -/

theorem getElem?_modifyRecord (scope : Scope) (handle : Handle) (f : Record → Record)
    (other : Handle) :
    (scope.modifyRecord handle f).entries[other]? = (scope.entries[other]?).map fun entry =>
      if handle = other then { entry with record := f entry.record } else entry := by
  unfold modifyRecord
  rw [List.getElem?_modify]
  rfl

theorem follows_modifyRecord {scope : Scope} {handle : Handle} {f : Record → Record}
    (hf : ∀ entry, scope.entries[handle]? = some entry →
      entry.Follows { entry with record := f entry.record }) :
    scope.Follows (scope.modifyRecord handle f) where
  entries other := by
    rw [getElem?_modifyRecord]
    cases hentry : scope.entries[other]? with
    | none => exact .none
    | some entry =>
        by_cases hsame : handle = other
        · subst hsame
          simp only [Option.map_some, if_true]
          exact .some (hf entry hentry)
        · simp only [Option.map_some, if_neg hsame]
          exact .some (.refl entry)
  identity := rfl
  staged := rfl
  sequences := rfl
  links _ _ target h := Or.inl ⟨target, h⟩
  supply := rfl
  drawn := Nat.le_refl _

theorem follows_consulted (scope : Scope) (consulted : Bool) :
    scope.Follows { scope with consulted } where
  __ := Follows.refl scope

theorem follows_knownTables (scope : Scope) (knownTables : NameSet) :
    scope.Follows { scope with knownTables } where
  __ := Follows.refl scope

variable {env : Environment} {history : History} {scope : Scope} {handle : Handle} {entry : Entry}

/-! ## Tables -/

/-- A table is known, or has become known since the storage was asked for it. -/
inductive Asked (env : Environment) (scope : Scope) (table : String) : Scope → Prop where
  | known : scope.knownTables.contains table = true → Asked env scope table scope
  | found (schema : TableSchema) : env.storage.table? table = .ok (some schema) →
      Asked env scope table
        { scope with consulted := true, knownTables := scope.knownTables.insert table () }

theorem requireTable_asks (scope : Scope) (env : Environment) (table : String) :
    (requireTable env table).Ends scope (fun _ => scope.Asked env table)
      (fun after => after = { scope with consulted := true }) := by
  unfold requireTable
  refine ScopeM.ends_get_bind ?_
  by_cases hknown : scope.knownTables.contains table = true
  · rw [if_pos hknown]
    exact ScopeM.ends_pure (.known hknown)
  · rw [if_neg hknown]
    refine ScopeM.ends_consult_bind ?_ rfl
    intro found hfound
    cases found with
    | none => exact ScopeM.ends_throw rfl
    | some schema => exact ScopeM.ends_modify (.found schema hfound)

/-- The records, links and rows of a scope are those of another. -/
structure SameRecords (before after : Scope) : Prop where
  entries : after.entries = before.entries
  links : after.links = before.links
  staged : after.staged = before.staged

theorem Asked.same {table : String} {asked : Scope} (h : scope.Asked env table asked) :
    scope.SameRecords asked := by
  cases h with
  | known => exact ⟨rfl, rfl, rfl⟩
  | found => exact ⟨rfl, rfl, rfl⟩

theorem Asked.follows {table : String} {asked : Scope} (h : scope.Asked env table asked) :
    scope.Follows asked := by
  cases h with
  | known => exact .refl scope
  | found => exact (follows_consulted scope true).trans (follows_knownTables _ _)

/-! ## Sequences -/

/-- The scope with a sequence brought to a number. -/
def advance (scope : Scope) (sequence : String) (value : Nat) : Scope :=
  { scope with sequences := scope.sequences.insert sequence value }

theorem sequenceValue_advance (scope : Scope) (env : Environment) (sequence : String) (value : Nat)
    (other : String) :
    (scope.advance sequence value).sequenceValue env other =
      if other = sequence then .ok value else scope.sequenceValue env other := by
  unfold sequenceValue advance
  rw [SortedMap.find?_insert]
  by_cases hother : other = sequence
  · rw [if_pos hother, if_pos hother]
  · rw [if_neg hother, if_neg hother]

/-- The number of a sequence in a scope is not behind the one in the storage. -/
theorem Sound.storage_le (h : scope.Sound env history) {sequence : String} {value old : Nat}
    (hvalue : scope.sequenceValue env sequence = .ok value)
    (hold : env.storage.sequenceValue sequence = .ok old) : old ≤ value := by
  unfold Scope.sequenceValue at hvalue
  cases hfind : scope.sequences.find? sequence with
  | some reached =>
      rw [hfind] at hvalue
      cases hvalue
      exact h.sequences sequence value old hfind hold
  | none =>
      rw [hfind, hold] at hvalue
      cases hvalue
      exact Nat.le_refl _

theorem Sound.advance (h : scope.Sound env history) {sequence : String} {current value : Nat}
    (hcurrent : scope.sequenceValue env sequence = .ok current) (hle : current ≤ value) :
    (scope.advance sequence value).Sound env history where
  entries handle entry hentry := by
    refine (h.entries handle entry hentry).transfer (.refl entry) (fun _ _ => rfl)
      (fun _ _ => rfl) ?_
      (Nat.le_refl _)
    intro other later hlater
    rw [sequenceValue_advance] at hlater
    by_cases hother : other = sequence
    · rw [if_pos hother] at hlater
      cases hlater
      exact ⟨current, hother ▸ hcurrent, hle⟩
    · rw [if_neg hother] at hlater
      exact ⟨later, hlater, Nat.le_refl _⟩
  identity := h.identity
  rows_fit := h.rows_fit
  rows_numbered model hmodel id row other later hvisible hseq hlater := by
    rw [sequenceValue_advance] at hlater
    by_cases hother : other = sequence
    · rw [if_pos hother] at hlater
      cases hlater
      rw [hother] at hseq
      have hnumbered := h.rows_numbered model hmodel id row sequence current hvisible hseq hcurrent
      exact Nat.le_trans hnumbered hle
    · rw [if_neg hother] at hlater
      exact h.rows_numbered model hmodel id row other later hvisible hseq hlater
  staged := h.staged
  sequences other later old hlater hold := by
    unfold Scope.advance at hlater
    rw [SortedMap.find?_insert] at hlater
    by_cases hother : other = sequence
    · rw [if_pos hother] at hlater
      cases hlater
      exact Nat.le_trans (h.storage_le hcurrent (hother ▸ hold)) hle
    · rw [if_neg hother] at hlater
      exact h.sequences other later old hlater hold
  links := h.links
  fresh := h.fresh
  supply := h.supply

/-- The next number of a sequence; it is used up even when it is too large for a key. -/
theorem nextId_ends (scope : Scope) (env : Environment) (sequence : String) :
    (nextId env sequence).Ends scope
      (fun id after => ∃ current, scope.sequenceValue env sequence = .ok current ∧
        id.toInt = current + 1 ∧ after = scope.advance sequence (current + 1))
      (fun after => after = scope ∨ ∃ current, scope.sequenceValue env sequence = .ok current ∧
        9223372036854775808 ≤ current + 1 ∧ after = scope.advance sequence (current + 1)) := by
  unfold nextId
  refine ScopeM.ends_get_bind ?_
  refine ScopeM.ends_lift_bind ?_ (Or.inl rfl)
  intro current hcurrent
  refine ScopeM.ends_modify_bind ?_
  by_cases hlarge : 9223372036854775808 ≤ current + 1
  · rw [if_pos hlarge]
    exact ScopeM.ends_throw (Or.inr ⟨current, hcurrent, hlarge, rfl⟩)
  · rw [if_neg hlarge]
    refine ScopeM.ends_pure ⟨current, hcurrent, ?_, rfl⟩
    rw [Int64.toInt_ofNat_of_lt (by omega)]
    rfl

/-! ## Giving keys -/

/-- The scope in which a record was given a key. -/
def giveKey (scope : Scope) (handle : Handle) (name : String) (id : Int64) : Scope :=
  { scope.modifyRecord handle fun record => record.assignId id with
    identity := scope.identity.insert (name, id) handle }

theorem getElem?_giveKey (scope : Scope) (handle : Handle) (name : String) (id : Int64)
    (other : Handle) :
    (scope.giveKey handle name id).entries[other]? = (scope.entries[other]?).map fun entry =>
      if handle = other then { entry with record := entry.record.assignId id } else entry :=
  scope.getElem?_modifyRecord handle (fun record => record.assignId id) other

theorem getElem?_giveKey_self (hentry : scope.entries[handle]? = some entry) (name : String)
    (id : Int64) :
    (scope.giveKey handle name id).entries[handle]? =
      some { entry with record := entry.record.assignId id } := by
  rw [getElem?_giveKey, hentry, Option.map_some, if_pos rfl]

theorem getElem?_giveKey_of_ne {other : Handle} (hother : handle ≠ other) (name : String)
    (id : Int64) :
    (scope.giveKey handle name id).entries[other]? = scope.entries[other]? := by
  rw [getElem?_giveKey]
  simp only [if_neg hother, Option.map_id']

/-- A record that is new has a key. -/
def HasKey (scope : Scope) (handle : Handle) : Prop :=
  ∀ entry, scope.entries[handle]? = some entry → entry.state = .pending → entry.record.id ≠ none

/-- A key was given to a record that was new and had none, or there was nothing to do. -/
inductive KeyGiven (env : Environment) (scope : Scope) (handle : Handle) : Scope → Prop where
  | idle : scope.HasKey handle → KeyGiven env scope handle scope
  | given (entry : Entry) (asked : Scope) (sequence : String) (current : Nat) (id : Int64) :
      scope.entries[handle]? = some entry → entry.state = .pending ∧ entry.record.id = none →
      scope.Asked env entry.record.model.tableName asked →
      entry.record.model.sequence? = some sequence →
      asked.sequenceValue env sequence = .ok current → id.toInt = current + 1 →
      KeyGiven env scope handle
        ((asked.advance sequence (current + 1)).giveKey handle entry.record.modelName id)

/-- No key could be given: there is no record or no table, no sequence, or no number that is left. -/
inductive KeyRefused (env : Environment) (scope : Scope) (handle : Handle) : Scope → Prop where
  | stale : KeyRefused env scope handle scope
  | missing : KeyRefused env scope handle { scope with consulted := true }
  | unnumbered (entry : Entry) (asked : Scope) : scope.entries[handle]? = some entry →
      entry.state = .pending ∧ entry.record.id = none →
      scope.Asked env entry.record.model.tableName asked → KeyRefused env scope handle asked
  | exhausted (entry : Entry) (asked : Scope) (sequence : String) (current : Nat) :
      scope.entries[handle]? = some entry → entry.state = .pending ∧ entry.record.id = none →
      scope.Asked env entry.record.model.tableName asked →
      entry.record.model.sequence? = some sequence →
      asked.sequenceValue env sequence = .ok current → 9223372036854775808 ≤ current + 1 →
      KeyRefused env scope handle (asked.advance sequence (current + 1))

/-- All that giving a key to a record can come to. -/
theorem assignId_outcome (scope : Scope) (env : Environment) (handle : Handle) :
    (assignId env handle).Ends scope (fun _ => scope.KeyGiven env handle)
      (scope.KeyRefused env handle) := by
  unfold assignId
  refine ScopeM.ends_entry_bind ?_ .stale
  intro entry hentry
  by_cases hnew : entry.state = .pending ∧ entry.record.id = none
  · rw [if_pos hnew]
    refine ScopeM.ends_bind ((requireTable_asks scope env _).mono (fun _ _ hasked => hasked) ?_) ?_
    · rintro _ rfl
      exact .missing
    · intro _ asked hasked
      cases hsequence : entry.record.model.sequence? with
      | none => exact ScopeM.ends_throw (.unnumbered entry asked hentry hnew hasked)
      | some sequence =>
          refine ScopeM.ends_bind ((nextId_ends asked env sequence).mono (fun _ _ hdone => hdone) ?_) ?_
          · rintro _ (rfl | ⟨current, hcurrent, hlarge, rfl⟩)
            · exact .unnumbered entry _ hentry hnew hasked
            · exact .exhausted entry asked sequence current hentry hnew hasked hsequence hcurrent hlarge
          · rintro id _ ⟨current, hcurrent, hid, rfl⟩
            exact ScopeM.ends_modify_bind (ScopeM.ends_modify
              (.given entry asked sequence current id hentry hnew hasked hsequence hcurrent hid))
  · rw [if_neg hnew]
    refine ScopeM.ends_pure (.idle ?_)
    intro found hfound hstate hnone
    obtain rfl := Option.some.inj (hentry.symm.trans hfound)
    exact hnew ⟨hstate, hnone⟩

theorem KeyRefused.same {after : Scope} (h : scope.KeyRefused env handle after) :
    scope.SameRecords after := by
  cases h with
  | stale => exact ⟨rfl, rfl, rfl⟩
  | missing => exact ⟨rfl, rfl, rfl⟩
  | unnumbered _ _ _ _ hasked => exact hasked.same
  | exhausted _ _ _ _ _ _ hasked => exact ⟨hasked.same.entries, hasked.same.links, hasked.same.staged⟩

/-- Only a record without a key is given one. -/
theorem carries_giveKey (hentry : scope.entries[handle]? = some entry)
    (hnone : entry.record.id = none) (name : String) (id : Int64) :
    scope.Carries (scope.giveKey handle name id) := by
  intro other old hold
  by_cases hsame : handle = other
  · subst hsame
    rw [hentry] at hold
    cases hold
    refine ⟨_, getElem?_giveKey_self hentry name id, entry.record.assignId_model id, ?_⟩
    intro key hkey
    rw [hnone] at hkey
    cases hkey
  · exact ⟨old, (getElem?_giveKey_of_ne hsame name id).trans hold, rfl, fun key hkey => hkey⟩

theorem find?_identity_giveKey (scope : Scope) (handle : Handle) (name : String) (id : Int64)
    (other : String × Int64) :
    (scope.giveKey handle name id).identity.find? other =
      if other = (name, id) then some handle else scope.identity.find? other :=
  SortedMap.find?_insert scope.identity (name, id) other handle

/-- A new record stays sound with a key that stands for no row and is greater than the numbers that
the storage has given. -/
theorem EntrySound.giveKey (hregistry : env.registry.Consistent)
    (h : scope.EntrySound env history handle entry) (hpending : entry.state = .pending)
    {sequence : String} (hsequence : entry.record.model.sequence? = some sequence) {id : Int64}
    {next : Nat} (hnext : scope.sequenceValue env sequence = .ok next) (hid : id.toInt = next)
    (hnew : ∀ old, env.storage.sequenceValue sequence = .ok old → old < next)
    (hinvisible : ∀ row,
      scope.visibleRow env entry.record.model.tableName id.toUInt64 ≠ .ok (some row)) :
    (scope.giveKey handle entry.record.modelName id).EntrySound env history handle
      { entry with record := entry.record.assignId id } := by
  have hmodel := entry.record.assignId_model id
  have hkey := entry.record.assignId_id id
  have hchanged : ∀ name,
      (entry.record.assignId id).isChanged name = entry.record.isChanged name := by
    intro name
    unfold Record.isChanged
    rw [Record.assignId_changed]
  rcases hregistry.mem_compiled h.registered with ⟨place, -, hcompiled⟩
  constructor
  case registered =>
    rw [hmodel]
    exact h.registered
  case identified =>
    intro key hsame
    rw [hkey] at hsame
    cases hsame
    refine ⟨by omega, ?_⟩
    have hname : (entry.record.assignId id).modelName = entry.record.modelName :=
      congrArg Model.name hmodel
    rw [find?_identity_giveKey, hname, if_pos rfl]
  case numbered =>
    intro key other value hsame hother hvalue
    rw [hkey] at hsame
    cases hsame
    rw [hmodel, hsequence] at hother
    cases hother
    have heq : next = value := Except.ok.inj (hnext.symm.trans hvalue)
    omega
  -- The number is greater than all that the storage has given.
  case numbered_here =>
    intro key other value _ hsame hother hvalue
    rw [hkey] at hsame
    cases hsame
    rw [hmodel, hsequence] at hother
    cases hother
    have hlt := hnew value hvalue
    omega
  case present =>
    intro hstate
    rw [hpending] at hstate
    rcases hstate with hstate | hstate
    · cases hstate
    · cases hstate
  case absent =>
    intro _ key row hsame
    rw [hkey] at hsame
    cases hsame
    rw [hmodel]
    exact hinvisible row
  case marked =>
    intro hlive column hdata hmark
    rw [hmodel] at hdata
    rw [hchanged] at hmark
    rw [Record.find?_assignId fun key hkey => hdata.name_ne_key hcompiled hkey]
    exact h.marked hlive column hdata hmark
  case unassigned =>
    intro hstate column hdata hmark
    rw [hmodel] at hdata
    rw [hchanged] at hmark
    exact h.unassigned hstate column hdata hmark
  case explained =>
    intro hstate
    rw [hpending] at hstate
    cases hstate

/-- All keys of a model that are in use are smaller than the next number of its sequence. -/
theorem Sound.id_ne_next (hregistry : env.registry.Consistent) (h : scope.Sound env history)
    {model : Model} (hmodel : model ∈ env.registry.models) {sequence : String}
    (hsequence : model.sequence? = some sequence) {current : Nat}
    (hcurrent : scope.sequenceValue env sequence = .ok current) {id : Int64}
    (hid : id.toInt = current + 1) (hentry : scope.entries[handle]? = some entry)
    (hname : entry.record.modelName = model.name) : entry.record.id ≠ some id := by
  intro hkey
  have hsound := h.entries handle entry hentry
  have hsame := hregistry.eq_of_name hsound.registered hmodel hname
  have hle := hsound.numbered id sequence current hkey (hsame ▸ hsequence) hcurrent
  omega

/-- The next number of a sequence stands for no row. -/
theorem Sound.visibleRow_next (h : scope.Sound env history) {model : Model}
    (hmodel : model ∈ env.registry.models) {sequence : String}
    (hsequence : model.sequence? = some sequence) {current : Nat}
    (hcurrent : scope.sequenceValue env sequence = .ok current) {id : Int64}
    (hid : id.toInt = current + 1) (row : StoredRow) :
    scope.visibleRow env model.tableName id.toUInt64 ≠ .ok (some row) := by
  intro hvisible
  have hle := h.rows_numbered model hmodel id.toUInt64 row sequence current hvisible hsequence
    hcurrent
  have hpositive : 0 ≤ id.toInt := by omega
  have hnumber := toNat_toUInt64 hpositive
  omega

/-- A scope stays sound when a new record gets the next number of its sequence. -/
theorem Sound.giveKey (hregistry : env.registry.Consistent) (h : scope.Sound env history)
    (hentry : scope.entries[handle]? = some entry) (hpending : entry.state = .pending)
    (hnone : entry.record.id = none) {sequence : String}
    (hsequence : entry.record.model.sequence? = some sequence) {current : Nat}
    (hcurrent : scope.sequenceValue env sequence = .ok current) {id : Int64}
    (hid : id.toInt = current + 1) :
    ((scope.advance sequence (current + 1)).giveKey handle entry.record.modelName id).Sound
      env history := by
  have hadvanced : (scope.advance sequence (current + 1)).Sound env history :=
    h.advance hcurrent (Nat.le_succ _)
  have hmodel := (h.entries handle entry hentry).registered
  have hself : ((scope.advance sequence (current + 1)).giveKey handle entry.record.modelName
      id).entries[handle]? = some { entry with record := entry.record.assignId id } :=
    getElem?_giveKey_self hentry entry.record.modelName id
  have hcarries : (scope.advance sequence (current + 1)).Carries
      ((scope.advance sequence (current + 1)).giveKey handle entry.record.modelName id) :=
    carries_giveKey hentry hnone entry.record.modelName id
  -- Apart from the record with the new key, what has to be shown is carried over.
  constructor
  case entries =>
    intro other new hnew
    by_cases hsame : handle = other
    · subst hsame
      rw [hself] at hnew
      cases hnew
      have hnext : (scope.advance sequence (current + 1)).sequenceValue env sequence =
          .ok (current + 1) := by
        rw [sequenceValue_advance, if_pos rfl]
      refine (hadvanced.entries handle entry hentry).giveKey hregistry hpending hsequence hnext hid
        ?_ (h.visibleRow_next hmodel hsequence hcurrent hid)
      intro storedValue hstored
      exact Nat.lt_succ_of_le (h.storage_le hcurrent hstored)
    · rw [getElem?_giveKey_of_ne hsame] at hnew
      refine (hadvanced.entries other new hnew).transfer (.refl new) ?_ (fun _ _ => rfl)
        (fun _ value hvalue => ⟨value, hvalue, Nat.le_refl _⟩) (Nat.le_refl _)
      intro key hkey
      -- The key that was given away stood for no other record of the model.
      have hne : ¬(new.record.modelName, key) = (entry.record.modelName, id) := by
        intro heq
        rw [Prod.mk.injEq] at heq
        exact h.id_ne_next hregistry hmodel hsequence hcurrent hid hnew heq.1 (heq.2 ▸ hkey)
      rw [find?_identity_giveKey, if_neg hne]
  case identity =>
    intro name key other hfind
    rw [find?_identity_giveKey] at hfind
    by_cases hsame : (name, key) = (entry.record.modelName, id)
    · rw [if_pos hsame] at hfind
      cases hfind
      cases hsame
      exact ⟨_, hself, congrArg Model.name (entry.record.assignId_model id),
        entry.record.assignId_id id⟩
    · rw [if_neg hsame] at hfind
      exact hcarries.identity (h.identity name key other hfind)
  case rows_fit => exact hadvanced.rows_fit
  case rows_numbered => exact hadvanced.rows_numbered
  case staged =>
    intro table number row hstaged
    exact hcarries.staged (h.staged table number row hstaged)
  case sequences => exact hadvanced.sequences
  case links =>
    intro other column target hlink
    exact hcarries.isReference (h.links other column target hlink)
  case fresh =>
    intro other hother column
    refine h.fresh other ?_ column
    have hlength : (scope.entries.modify handle fun entry =>
        { entry with record := entry.record.assignId id }).length = scope.entries.length :=
      List.length_modify ..
    rw [← hlength]
    exact hother
  case supply => exact h.supply

theorem Ready.giveKey (h : scope.Ready history) (sequence : String) (value : Nat) (handle : Handle)
    (name : String) (id : Int64) :
    ((scope.advance sequence value).giveKey handle name id).Ready history := by
  intro other new hnew hstate n hn
  rw [getElem?_giveKey] at hnew
  rcases Option.map_eq_some_iff.1 hnew with ⟨old, hold, hmade⟩
  refine h other old hold ?_ n hn
  by_cases hsame : handle = other
  · rw [if_pos hsame] at hmade
    subst hmade
    exact hstate
  · rw [if_neg hsame] at hmade
    subst hmade
    exact hstate

/-! ## All new records -/

theorem SoundReady.advance (h : scope.SoundReady env history) {sequence : String} {current : Nat}
    (hcurrent : scope.sequenceValue env sequence = .ok current) :
    (scope.advance sequence (current + 1)).SoundReady env history :=
  ⟨h.1.advance hcurrent (Nat.le_succ _), h.2⟩

theorem assignId_ends (hregistry : env.registry.Consistent) (h : scope.SoundReady env history)
    (handle : Handle) :
    (assignId env handle).Ends scope (fun _ => SoundReady env history)
      (SoundReady env history) := by
  refine (assignId_outcome scope env handle).mono ?_ ?_
  · rintro _ _ (_ | ⟨entry, asked, sequence, current, id, hentry, hnew, hasked, hsequence, hcurrent, hid⟩)
    · exact h
    · have hfollows := hasked.follows
      obtain ⟨entry', hentry', hsame⟩ := hfollows.forth hentry
      have h' := h.of_follows hfollows
      have hname : entry'.record.modelName = entry.record.modelName := congrArg Model.name hsame.model
      have hgiven := h'.1.giveKey hregistry hentry' (hsame.state.trans hnew.1) (hsame.id.trans hnew.2)
        (by rw [hsame.model]; exact hsequence) hcurrent hid
      rw [hname] at hgiven
      exact ⟨hgiven, h'.2.giveKey sequence (current + 1) handle entry.record.modelName id⟩
  · rintro _ (_ | _ | ⟨_, _, -, -, hasked⟩ | ⟨_, _, sequence, current, -, -, hasked, -, hcurrent, -⟩)
    · exact h
    · exact h.of_follows (follows_consulted scope true)
    · exact h.of_follows hasked.follows
    · exact (h.of_follows hasked.follows).advance hcurrent

/-- Giving keys to all new records keeps a scope sound, however far it comes. -/
theorem assignIds_ends (hregistry : env.registry.Consistent) (h : scope.SoundReady env history) :
    (assignIds env).Ends scope (fun _ => SoundReady env history) (SoundReady env history) := by
  unfold assignIds
  refine ScopeM.ends_get_bind ?_
  exact ScopeM.ends_forM h fun handle _ scope' h' => assignId_ends hregistry h' handle

end Scope

end RecordStore
