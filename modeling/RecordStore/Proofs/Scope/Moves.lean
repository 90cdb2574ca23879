import Mathlib.Logic.Relation
import RecordStore.Proofs.Scope.Assigning
import RecordStore.Proofs.Scope.Loading

/-!
# Moves of a scope

Rows and keys depend on little of a scope: on where each record stands (`Scope.standing`), on the
rows it has staged, on the keys it has given and on the numbers it has drawn.  `Scope.Move` says once
what the actions of a scope can do to these.  An action is a chain of moves (`Scope.Reaches`), so an
invariant is proved by looking at each move once.

The conditions under which records come and go are the `Terms` of a chain.  They say nothing about
the values of records: a record that comes from outside may hold anything.
-/

namespace RecordStore

/-- What the acts in a scope are held to. -/
structure Terms where
  /-- A record with a key that comes from outside has its row at that moment. -/
  grounded : Prop
  /-- No record is deleted. -/
  undeleted : Prop

/-- Where a record stands, and for which row. -/
structure Standing where
  state : Lifecycle
  model : Model
  id : Option Int64

/-- Where the record of an entry stands. -/
def Entry.standing (entry : Entry) : Standing where
  state := entry.state
  model := entry.record.model
  id := entry.record.id

/-- What a flush writes to a column of its own accord: the key, a bound value, or nothing where that
is allowed. -/
inductive Column.Written (column : Column) (table : String) (id : Int64) : Value → Prop where
  | key : column.primaryKey = true → column.Written table id (.integer id)
  | bound (v stored : Value) : column.primaryKey = false → column.bind table v = .ok stored →
      column.Written table id stored
  | empty : column.primaryKey = false → column.nullable = true → column.Written table id .null

namespace Scope

variable {env : Environment} {terms : Terms} {scope before after last : Scope} {handle : Handle}

/-- Where the record of a handle stands. -/
def standing (scope : Scope) (handle : Handle) : Option Standing :=
  (scope.entries[handle]?).map Entry.standing

theorem standing_of_entry {entry : Entry} (h : scope.entries[handle]? = some entry) :
    scope.standing handle = some entry.standing := by
  unfold standing
  rw [h, Option.map_some]

theorem lt_of_standing {s : Standing} (h : scope.standing handle = some s) :
    handle < scope.entries.length := by
  obtain ⟨entry, hentry, -⟩ := Option.map_eq_some_iff.1 h
  exact (List.getElem?_eq_some_iff.1 hentry).1

/-! ## How standings change -/

theorem standing_modifyRecord {f : Record → Record}
    (hf : ∀ entry, scope.entries[handle]? = some entry →
      (f entry.record).model = entry.record.model ∧ (f entry.record).id = entry.record.id)
    (other : Handle) : (scope.modifyRecord handle f).standing other = scope.standing other := by
  unfold standing
  rw [getElem?_modifyRecord, Option.map_map]
  cases hentry : scope.entries[other]? with
  | none => rfl
  | some entry =>
      by_cases hsame : handle = other
      · obtain ⟨hmodel, hid⟩ := hf entry (hsame ▸ hentry)
        simp [Entry.standing, hsame, hmodel, hid]
      · simp [hsame]

theorem standing_giveKey (scope : Scope) {s : Standing} (h : scope.standing handle = some s) (name : String)
    (id : Int64) (other : Handle) :
    (scope.giveKey handle name id).standing other =
      if handle = other then some { s with id := some id } else scope.standing other := by
  unfold standing
  rw [getElem?_giveKey, Option.map_map]
  by_cases hsame : handle = other
  · subst hsame
    obtain ⟨entry, hentry, rfl⟩ := Option.map_eq_some_iff.1 h
    simp [Entry.standing, hentry, Record.assignId_model, Record.assignId_id]
  · cases scope.entries[other]? with
    | none => simp [hsame]
    | some entry => simp [hsame]

theorem standing_appendAs (scope : Scope) (entry : Entry)
    (identity : SortedMap (String × Int64) Handle) (other : Handle) :
    (scope.appendAs entry identity).standing other =
      if other = scope.entries.length then some entry.standing else scope.standing other := by
  show ((scope.entries ++ [entry])[other]?).map Entry.standing = _
  by_cases hsame : other = scope.entries.length
  · simp [hsame]
  · rw [if_neg hsame]
    unfold standing
    rcases Nat.lt_or_gt_of_ne hsame with hlt | hgt
    · rw [List.getElem?_append_left hlt]
    · have hnew : (scope.entries ++ [entry])[other]? = none := by simp; omega
      have hold : scope.entries[other]? = none := by simp; omega
      rw [hnew, hold]

/-- The scope in which a record is marked for deletion. -/
def withdraw (scope : Scope) (handle : Handle) : Scope :=
  scope.modifyEntry handle fun entry => { entry with state := entry.state.afterDelete }

theorem standing_withdraw (scope : Scope) (handle other : Handle) :
    (scope.withdraw handle).standing other = (scope.standing other).map fun s =>
      if handle = other then { s with state := s.state.afterDelete } else s := by
  unfold standing withdraw
  rw [getElem?_modifyEntry, Option.map_map, Option.map_map]
  cases scope.entries[other]? with
  | none => rfl
  | some entry => by_cases hsame : handle = other <;> simp [hsame, Entry.standing]

theorem standing_settle (images : List RowImage) (scope : Scope) (other : Handle) :
    (settle images scope).standing other =
      (scope.standing other).map fun s => { s with state := s.state.afterFlush } := by
  unfold standing
  rw [getElem?_settle, Option.map_map, Option.map_map]
  cases scope.entries[other]? with
  | none => rfl
  | some entry =>
      simp only [Option.map_some, Function.comp_apply, Entry.standing, settleEntry_model,
        settleEntry_id]
      rfl

/-! ## Steps that move nothing -/

/-- Every record stands where it stood, and no row, key or number has changed. -/
structure Steady (env : Environment) (before after : Scope) : Prop where
  standing : ∀ handle, after.standing handle = before.standing handle
  identity : after.identity = before.identity
  staged : after.staged = before.staged
  sequences : after.sequences = before.sequences
  /-- Tables become known only by a look into the catalog. -/
  known : ∀ table, after.knownTables.contains table = true →
    before.knownTables.contains table = true ∨
      ∃ schema, env.storage.table? table = .ok (some schema)

namespace Steady

theorem refl (env : Environment) (scope : Scope) : scope.Steady env scope where
  standing _ := rfl
  identity := rfl
  staged := rfl
  sequences := rfl
  known _ h := Or.inl h

theorem trans (hab : before.Steady env after) (hbc : after.Steady env last) :
    before.Steady env last where
  standing handle := (hbc.standing handle).trans (hab.standing handle)
  identity := hbc.identity.trans hab.identity
  staged := hbc.staged.trans hab.staged
  sequences := hbc.sequences.trans hab.sequences
  known table h := (hbc.known table h).elim (hab.known table) Or.inr

theorem visibleRow (h : before.Steady env after) (table : String) (id : UInt64) :
    after.visibleRow env table id = before.visibleRow env table id :=
  visibleRow_congr (by rw [h.staged])

theorem handles_eq (h : before.Steady env after) : after.handles = before.handles := by
  -- Both scopes have a record at the same handles.
  have hbound : ∀ handle, handle < after.entries.length ↔ handle < before.entries.length := by
    intro handle
    constructor
    · intro hafter
      exact lt_of_standing
        ((h.standing handle).symm.trans (standing_of_entry (List.getElem?_eq_getElem hafter)))
    · intro hbefore
      exact lt_of_standing
        ((h.standing handle).trans (standing_of_entry (List.getElem?_eq_getElem hbefore)))
  have hlength : after.entries.length = before.entries.length := by
    have hafter := hbound after.entries.length
    have hbefore := hbound before.entries.length
    omega
  unfold handles
  rw [hlength]

theorem carries (h : before.Steady env after) : before.Carries after := by
  intro handle entry hentry
  have hstanding := (h.standing handle).trans (standing_of_entry hentry)
  obtain ⟨new, hnew, hsame⟩ := Option.map_eq_some_iff.1 hstanding
  refine ⟨new, hnew, congrArg Standing.model hsame, ?_⟩
  intro id hid
  exact (congrArg Standing.id hsame).trans hid

theorem sequenceValue (h : before.Steady env after) (sequence : String) :
    after.sequenceValue env sequence = before.sequenceValue env sequence := by
  unfold Scope.sequenceValue
  rw [h.sequences]

end Steady

theorem steady_modifyRecord (env : Environment) {f : Record → Record}
    (hf : ∀ entry, scope.entries[handle]? = some entry →
      (f entry.record).model = entry.record.model ∧ (f entry.record).id = entry.record.id) :
    scope.Steady env (scope.modifyRecord handle f) where
  __ := Steady.refl env scope
  standing := standing_modifyRecord hf

theorem steady_consulted (env : Environment) (scope : Scope) (consulted : Bool) :
    scope.Steady env { scope with consulted } where
  __ := Steady.refl env scope

theorem steady_supply (env : Environment) (scope : Scope) (supply : Supply) :
    scope.Steady env { scope with supply } where
  __ := Steady.refl env scope

theorem steady_links (env : Environment) (scope : Scope)
    (links : SortedMap (Handle × String) Handle) : scope.Steady env { scope with links } where
  __ := Steady.refl env scope

/-! ## Images -/

/-- What is written for a record that stands somewhere.  A record that is stored may have nothing to
write; if it has, columns that were not changed are kept from its row, and are empty when it has
none. -/
inductive Image (env : Environment) (scope : Scope) (s : Standing) : Option RowImage → Prop where
  | inserted (id : Int64) (row : StoredRow) (columns : List (String × Value)) :
      s.state = .pending → s.id = some id → 0 ≤ id.toInt → encodeColumns columns = .ok row.data →
      List.Forall₂ (fun (column : Column) (entry : String × Value) => entry.1 = column.name ∧
        column.Written s.model.tableName id entry.2) s.model.columns columns →
      Image env scope s (some { model := s.model, id := id.toUInt64, content := some (row, columns) })
  | updated (id : Int64) (row : StoredRow) (columns stored : List (String × Value))
      (existing : Option StoredRow) :
      s.state = .persistent → s.id = some id → 0 ≤ id.toInt → encodeColumns columns = .ok row.data →
      scope.visibleRow env s.model.tableName id.toUInt64 = .ok existing →
      existingColumns existing = .ok stored →
      List.Forall₂ (fun (column : Column) (entry : String × Value) => entry.1 = column.name ∧
        (column.Written s.model.tableName id entry.2 ∨
          column.primaryKey = false ∧ entry.2 = storedColumn stored column.name))
        s.model.columns columns →
      Image env scope s (some { model := s.model, id := id.toUInt64, content := some (row, columns) })
  | unchanged : s.state = .persistent → Image env scope s none
  | deleted (id : Int64) : s.state = .deleted → s.id = some id → 0 ≤ id.toInt →
      Image env scope s (some { model := s.model, id := id.toUInt64, content := none })
  | removed : s.state = .removed → Image env scope s none

theorem Image.of_steady {s : Standing} {image : Option RowImage} (h : Image env before s image)
    (hsteady : before.Steady env after) : Image env after s image := by
  cases h with
  | inserted id row columns hstate hid hpositive hdata hcolumns =>
      exact .inserted id row columns hstate hid hpositive hdata hcolumns
  | updated id row columns stored existing hstate hid hpositive hdata hrow hstored hcolumns =>
      refine .updated id row columns stored existing hstate hid hpositive hdata ?_ hstored hcolumns
      exact (hsteady.visibleRow _ _).trans hrow
  | unchanged hstate => exact .unchanged hstate
  | deleted id hstate hid hpositive => exact .deleted id hstate hid hpositive
  | removed hstate => exact .removed hstate

/-- The images of records: each is that of a record, and no record that asks for one is left out. -/
structure Images (env : Environment) (scope : Scope) (handles : List Handle)
    (images : List RowImage) : Prop where
  made : ∀ image ∈ images, ∃ handle s, scope.standing handle = some s ∧
    Image env scope s (some image)
  complete : ∀ handle ∈ handles, ∀ s, scope.standing handle = some s →
    s.state = .pending ∨ s.state = .deleted → ∃ image ∈ images, Image env scope s (some image)

/-! ## Moves -/

/-- What an action of a scope does in one go, as far as rows and keys depend on it. -/
inductive Move (env : Environment) (terms : Terms) : Scope → Scope → Prop where
  | steady {before after : Scope} : before.Steady env after → Move env terms before after
  /-- A number is drawn that is too large for a key. -/
  | exhaust {before : Scope} {handle : Handle} {model : Model} {sequence : String} {current : Nat}
      {schema : TableSchema} :
      before.standing handle = some { state := .pending, model, id := none } →
      env.storage.table? model.tableName = .ok (some schema) →
      model.sequence? = some sequence → before.sequenceValue env sequence = .ok current →
      9223372036854775808 ≤ current + 1 →
      Move env terms before (before.advance sequence (current + 1))
  /-- A new record gets the next number of its sequence. -/
  | giveKey {before : Scope} {handle : Handle} {model : Model} {sequence : String} {current : Nat}
      {schema : TableSchema} {id : Int64} :
      before.standing handle = some { state := .pending, model, id := none } →
      env.storage.table? model.tableName = .ok (some schema) →
      model.sequence? = some sequence → before.sequenceValue env sequence = .ok current →
      id.toInt = current + 1 →
      Move env terms before ((before.advance sequence (current + 1)).giveKey handle model.name id)
  | enter {before : Scope} {record : Record} :
      record.model ∈ env.registry.models → record.id = none →
      Move env terms before (before.appendAs { record, state := .pending } before.identity)
  /-- A record is loaded, or comes from outside and stands for its row from now on. -/
  | adopt {before : Scope} {record : Record} {id : Int64} :
      record.model ∈ env.registry.models → record.id = some id →
      before.identity.find? (record.modelName, id) = none →
      (terms.grounded → 0 ≤ id.toInt ∧ ∃ row,
        before.visibleRow env record.model.tableName id.toUInt64 = .ok (some row)) →
      Move env terms before (before.appendAs { record, state := .persistent }
        (before.identity.insert (record.modelName, id) before.entries.length))
  | withdraw {before : Scope} (handle : Handle) : ¬terms.undeleted →
      Move env terms before (before.withdraw handle)
  | settle {before : Scope} {images : List RowImage} :
      Images env before before.handles images → before.checkConstraints env images = .ok () →
      Move env terms before (settle images before)

/-- One scope comes from another by moves. -/
abbrev Reaches (env : Environment) (terms : Terms) : Scope → Scope → Prop :=
  Relation.ReflTransGen (Move env terms)

/-- Only settling changes what is staged. -/
theorem Move.staged_cases (h : Move env terms before after) :
    after.staged = before.staged ∨ ∃ images, Images env before before.handles images ∧
      before.checkConstraints env images = .ok () ∧ after = Scope.settle images before := by
  cases h with
  | steady hsteady => exact Or.inl hsteady.staged
  | settle himages hchecked => exact Or.inr ⟨_, himages, hchecked, rfl⟩
  | _ => exact Or.inl rfl

/-- A record keeps its model, and the key that it has. -/
theorem Move.carries (h : Move env terms before after) {s : Standing}
    (hs : before.standing handle = some s) :
    ∃ s', after.standing handle = some s' ∧ s'.model = s.model ∧
      ∀ id, s.id = some id → s'.id = some id := by
  cases h with
  | steady hsteady => exact ⟨s, (hsteady.standing handle).trans hs, rfl, fun _ hid => hid⟩
  | exhaust => exact ⟨s, hs, rfl, fun _ hid => hid⟩
  | @giveKey other model sequence current _ id hnew =>
      have hstanding := standing_giveKey (before.advance sequence (current + 1)) hnew
        model.name id handle
      by_cases hsame : other = handle
      · subst hsame
        rw [if_pos rfl] at hstanding
        obtain rfl : s = _ := Option.some.inj (hs.symm.trans hnew)
        exact ⟨_, hstanding, rfl, fun _ hid => by cases hid⟩
      · rw [if_neg hsame] at hstanding
        exact ⟨s, hstanding.trans hs, rfl, fun _ hid => hid⟩
  | enter | adopt =>
      have hold : handle ≠ before.entries.length := Nat.ne_of_lt (lt_of_standing hs)
      refine ⟨s, ?_, rfl, fun _ hid => hid⟩
      rw [standing_appendAs, if_neg hold, hs]
  | withdraw other =>
      refine ⟨if other = handle then { s with state := s.state.afterDelete } else s, ?_, ?_, ?_⟩
      · rw [standing_withdraw, hs, Option.map_some]
      · split <;> rfl
      · intro id hid
        split <;> exact hid
  | settle =>
      refine ⟨{ s with state := s.state.afterFlush }, ?_, rfl, fun _ hid => hid⟩
      rw [standing_settle, hs, Option.map_some]

/-- Every record was there with its model before, or it is one of a registered model. -/
theorem Move.model_cases (h : Move env terms before after) {s : Standing}
    (hs : after.standing handle = some s) :
    (∃ old, before.standing handle = some old ∧ old.model = s.model) ∨
      s.model ∈ env.registry.models := by
  cases h with
  | steady hsteady => exact Or.inl ⟨s, (hsteady.standing handle).symm.trans hs, rfl⟩
  | exhaust => exact Or.inl ⟨s, hs, rfl⟩
  | @giveKey other model sequence current _ id hnew =>
      rw [standing_giveKey (before.advance sequence (current + 1)) hnew] at hs
      by_cases hsame : other = handle
      · subst hsame
        rw [if_pos rfl] at hs
        cases hs
        exact Or.inl ⟨_, hnew, rfl⟩
      · rw [if_neg hsame] at hs
        exact Or.inl ⟨s, hs, rfl⟩
  | enter hmodel | adopt hmodel =>
      rw [standing_appendAs] at hs
      by_cases hnew : handle = before.entries.length
      · rw [if_pos hnew] at hs
        cases hs
        exact Or.inr hmodel
      · rw [if_neg hnew] at hs
        exact Or.inl ⟨s, hs, rfl⟩
  | withdraw other =>
      rw [standing_withdraw] at hs
      obtain ⟨old, hold, rfl⟩ := Option.map_eq_some_iff.1 hs
      refine Or.inl ⟨old, hold, ?_⟩
      split <;> rfl
  | settle =>
      rw [standing_settle] at hs
      obtain ⟨old, hold, rfl⟩ := Option.map_eq_some_iff.1 hs
      exact Or.inl ⟨old, hold, rfl⟩

/-! ## Records of registered models -/

/-- What holds of every scope, whatever comes into it: its records are of registered models, those that
are stored have keys, a key stands for a record that has it, and known tables are in the catalog. -/
structure Rooted (env : Environment) (scope : Scope) : Prop where
  registered : ∀ handle s, scope.standing handle = some s → s.model ∈ env.registry.models
  stored : ∀ handle s, scope.standing handle = some s → s.state = .persistent → s.id ≠ none
  identity : ∀ name id handle, scope.identity.find? (name, id) = some handle →
    ∃ s, scope.standing handle = some s ∧ s.model.name = name ∧ s.id = some id
  known : ∀ table, scope.knownTables.contains table = true →
    ∃ schema, env.storage.table? table = .ok (some schema)

theorem rooted_empty (env : Environment) (supply : Supply) : Rooted env { supply } where
  registered _ _ h := by cases h
  stored _ _ h := by cases h
  identity _ _ _ h := by cases h
  known _ h := by cases h

namespace Rooted

/-- The records of a scope are of registered models. -/
theorem mem_models (h : scope.Rooted env) {entry : Entry} (hentry : scope.entries[handle]? = some entry) :
    entry.record.model ∈ env.registry.models :=
  h.registered handle _ (standing_of_entry hentry)

/-- The models of records are compiled. -/
theorem compiled (h : scope.Rooted env) (hregistry : env.registry.Consistent) {entry : Entry}
    (hentry : scope.entries[handle]? = some entry) : ∃ find?, entry.record.model.Compiled find? := by
  obtain ⟨_, -, hcompiled⟩ := hregistry.mem_compiled (h.mem_models hentry)
  exact ⟨_, hcompiled⟩

/-- The record that another one replaces is of the same model and has the same key. -/
theorem replaced (h : scope.Rooted env) (hregistry : env.registry.Consistent) {record : Record}
    (hmodel : record.model ∈ env.registry.models) {id : Int64} (hid : record.id = some id)
    (hfind : scope.identity.find? (record.modelName, id) = some handle) {entry : Entry}
    (hentry : scope.entries[handle]? = some entry) :
    record.model = entry.record.model ∧ record.id = entry.record.id := by
  obtain ⟨s, hs, hname, hkey⟩ := h.identity _ _ _ hfind
  obtain rfl := Option.some.inj ((standing_of_entry hentry).symm.trans hs)
  exact ⟨hregistry.eq_of_name hmodel (h.mem_models hentry) hname.symm, hid.trans hkey.symm⟩

/-- What a key stands for is carried over, unless the move has made the key stand for something
else. -/
theorem identity_move (h : before.Rooted env) (hmove : Move env terms before after) {name : String}
    {id : Int64} (hfind : after.identity.find? (name, id) = some handle) :
    ∃ s, after.standing handle = some s ∧ s.model.name = name ∧ s.id = some id := by
  have hcarried : before.identity.find? (name, id) = some handle →
      ∃ s, after.standing handle = some s ∧ s.model.name = name ∧ s.id = some id := by
    intro hold
    obtain ⟨s, hs, hname, hid⟩ := h.identity name id handle hold
    obtain ⟨s', hs', hmodel, hkey⟩ := hmove.carries hs
    exact ⟨s', hs', by rw [hmodel, hname], hkey id hid⟩
  cases hmove with
  | steady hsteady =>
      rw [hsteady.identity] at hfind
      exact hcarried hfind
  | exhaust | enter | withdraw | settle => exact hcarried hfind
  | @giveKey other model sequence current _ key hnew =>
      rw [find?_identity_giveKey] at hfind
      by_cases hsame : (name, id) = (model.name, key)
      · cases hsame
        rw [if_pos rfl] at hfind
        cases hfind
        exact ⟨_, (standing_giveKey (before.advance sequence (current + 1)) hnew _ _
          handle).trans (if_pos rfl), rfl, rfl⟩
      · rw [if_neg hsame] at hfind
        exact hcarried hfind
  | @adopt record key _ hkey =>
      change (before.identity.insert _ _).find? _ = _ at hfind
      rcases SortedMap.find?_insert_eq_some.1 hfind with ⟨hsame, rfl⟩ | ⟨-, hold⟩
      · cases hsame
        exact ⟨_, (standing_appendAs _ _ _ _).trans (if_pos rfl), rfl, hkey⟩
      · exact hcarried hold

/-- Only settling makes a new record a stored one, and then the record has an image. -/
theorem stored_move (h : before.Rooted env) (hmove : Move env terms before after) {s : Standing}
    (hs : after.standing handle = some s) (hstate : s.state = .persistent) : s.id ≠ none := by
  cases hmove with
  | steady hsteady => exact h.stored handle s ((hsteady.standing handle).symm.trans hs) hstate
  | exhaust => exact h.stored handle s hs hstate
  | @giveKey other model sequence current _ id hnew =>
      rw [standing_giveKey (before.advance sequence (current + 1)) hnew] at hs
      by_cases hsame : other = handle
      · rw [if_pos hsame] at hs
        cases hs
        exact Option.some_ne_none id
      · rw [if_neg hsame] at hs
        exact h.stored handle s hs hstate
  | enter =>
      rw [standing_appendAs] at hs
      split at hs
      · cases hs
        cases hstate
      · exact h.stored handle s hs hstate
  | adopt _ hid =>
      rw [standing_appendAs] at hs
      split at hs
      · cases hs
        exact Option.ne_none_iff_exists'.2 ⟨_, hid⟩
      · exact h.stored handle s hs hstate
  | withdraw other =>
      rw [standing_withdraw] at hs
      obtain ⟨old, hold, rfl⟩ := Option.map_eq_some_iff.1 hs
      split at hstate
      · cases hcase : old.state <;> simp [hcase, Lifecycle.afterDelete] at hstate
      · split
        · contradiction
        · exact h.stored handle old hold hstate
  | settle himages =>
      rw [standing_settle] at hs
      obtain ⟨old, hold, rfl⟩ := Option.map_eq_some_iff.1 hs
      cases hcase : old.state with
      | persistent => exact h.stored handle old hold hcase
      | pending =>
          -- It was given its key before its image was made.
          obtain ⟨_, -, himage⟩ := himages.complete handle
            (List.mem_range.2 (lt_of_standing hold)) old hold (Or.inl hcase)
          cases himage with
          | inserted id _ _ _ hid => exact Option.ne_none_iff_exists'.2 ⟨id, hid⟩
          | updated _ _ _ _ _ hother | deleted _ hother => cases hcase.symm.trans hother
      | deleted | removed => simp [hcase, Lifecycle.afterFlush] at hstate

theorem move (h : before.Rooted env) (hmove : Move env terms before after) : after.Rooted env where
  registered handle s hs := by
    rcases hmove.model_cases hs with ⟨old, hold, hmodel⟩ | hmodel
    · rw [← hmodel]
      exact h.registered handle old hold
    · exact hmodel
  stored _ _ hs hstate := h.stored_move hmove hs hstate
  identity _ _ _ hfind := h.identity_move hmove hfind
  known table hknown := by
    cases hmove with
    | steady hsteady => exact (hsteady.known table hknown).elim (h.known table) id
    | _ => exact h.known table hknown

theorem reaches (h : scope.Rooted env) (hreaches : scope.Reaches env terms after) :
    after.Rooted env := by
  induction hreaches with
  | refl => exact h
  | tail _ hmove ih => exact ih.move hmove

end Rooted

end Scope

end RecordStore
