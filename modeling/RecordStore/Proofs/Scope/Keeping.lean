import RecordStore.Proofs.Scope.Loading

/-!
# Properties that look-ups keep

Looking records up flushes, loads rows that no record stands for yet, and changes nothing else.  A
property of scopes that these two keep (`Scope.Lookable`) is kept by all ways to look records up,
however they end.  Look-ups by key do not flush, so they keep whatever loading keeps
(`Scope.Loadable`).
-/

namespace RecordStore

namespace ScopeM

variable {α β : Type} {kept : Scope → Prop}

/-- The action keeps a property of scopes, whether it succeeds or fails. -/
def Keeps (kept : Scope → Prop) (action : ScopeM α) : Prop :=
  ∀ scope : Scope, kept scope → action.Ends scope (fun _ => kept) kept

theorem keeps_pure (a : α) : Keeps kept (pure a) := fun _ h => h

theorem keeps_throw (error : Error) : Keeps kept (throw error : ScopeM α) := fun _ h => h

theorem keeps_lift (result : Except Error α) : Keeps kept (lift result) :=
  fun _ h => ends_lift (fun _ _ => h) h

theorem Keeps.bind {action : ScopeM α} {next : α → ScopeM β} (h : Keeps kept action)
    (hnext : ∀ a, Keeps kept (next a)) : Keeps kept (action >>= next) :=
  fun scope hscope => ends_bind (h scope hscope) fun a after hafter => hnext a after hafter

theorem keeps_get_bind {next : Scope → ScopeM α} (h : ∀ scope, Keeps kept (next scope)) :
    Keeps kept (get >>= next) :=
  fun scope hscope => ends_get_bind (h scope scope hscope)

theorem keeps_ite (p : Prop) [Decidable p] {a b : ScopeM α} (ha : Keeps kept a)
    (hb : Keeps kept b) : Keeps kept (if p then a else b) := by
  by_cases hp : p
  · rw [if_pos hp]
    exact ha
  · rw [if_neg hp]
    exact hb

theorem keeps_record (handle : Handle) : Keeps kept (Scope.record handle) := by
  intro scope h
  unfold Scope.record
  exact ends_entry_bind (fun _ _ => ends_pure h) h

end ScopeM

/-- A number of a row that is small enough is that of its key. -/
theorem keyOf_eq_ok {number : UInt64} {id : Int64} (h : Scope.keyOf number = .ok id) :
    0 ≤ id.toInt ∧ id.toUInt64 = number := by
  unfold Scope.keyOf at h
  by_cases hlarge : 9223372036854775808 ≤ number.toNat
  · rw [if_pos hlarge] at h
    cases h
  · rw [if_neg hlarge] at h
    cases h
    refine ⟨?_, number.toUInt64_toInt64⟩
    have hsmall : 2 * number.toBitVec.toNat < 2 ^ 64 := by
      show 2 * number.toNat < 2 ^ 64
      omega
    have hvalue : number.toInt64.toInt = number.toNat := BitVec.toInt_eq_toNat_of_lt hsmall
    omega

namespace Scope

variable {env : Environment} {kept : Scope → Prop} {scope : Scope} {model : Model}

/-- A property that holds on when a scope asks the storage, or loads a visible row that no record stands
for. -/
structure Loadable (env : Environment) (kept : Scope → Prop) : Prop where
  consulted : ∀ scope, kept scope → kept { scope with consulted := true }
  materialize : ∀ {scope : Scope} {model : Model} {id : Int64} {row : StoredRow}, kept scope →
    model ∈ env.registry.models → 0 ≤ id.toInt →
    scope.visibleRow env model.tableName id.toUInt64 = .ok (some row) →
    scope.identity.find? (model.name, id) = none →
      (materialize env model id row).Ends scope
        (fun _ after => kept after ∧ after.staged = scope.staged) kept

/-- A property that also holds on when a scope is flushed. -/
structure Lookable (env : Environment) (kept : Scope → Prop) : Prop extends Loadable env kept where
  flush : (flush env).Keeps kept

/-- Looking a row up at most notes that the storage was asked. -/
theorem lookUpRow_cases (scope : Scope) (env : Environment) (table : String) (id : UInt64) :
    (lookUpRow env table id).Ends scope
      (fun row after => (after = scope ∨ after = { scope with consulted := true }) ∧
        scope.visibleRow env table id = .ok row)
      (fun after => after = scope ∨ after = { scope with consulted := true }) := by
  unfold lookUpRow
  refine ScopeM.ends_get_bind ?_
  by_cases hstaged : (scope.staged.find? (table, id)).isSome = true
  · rw [if_pos hstaged]
    exact ScopeM.ends_lift (fun row hrow => ⟨Or.inl rfl, hrow⟩) (Or.inl rfl)
  · rw [if_neg hstaged]
    exact ScopeM.ends_consult (fun row hrow => ⟨Or.inr rfl, hrow⟩) (Or.inr rfl)

namespace Loadable

variable (h : Loadable env kept) (hregistry : env.registry.Consistent)

include h

theorem of_lookUpRow {after : Scope} (hscope : kept scope)
    (hafter : after = scope ∨ after = { scope with consulted := true }) : kept after := by
  rcases hafter with rfl | rfl
  · exact hscope
  · exact h.consulted scope hscope

include hregistry

/-! ## By key -/

theorem keeps_find (name : String) (id : Int64) : (find env name id).Keeps kept := by
  intro scope hscope
  unfold find
  refine ScopeM.ends_lift_bind ?_ hscope
  intro model hmodel
  have hmem := (hregistry.model_eq_ok.1 hmodel).1
  refine ScopeM.ends_get_bind ?_
  cases hfind : scope.identity.find? (model.name, id) with
  | some handle =>
      simp only []
      cases scope.entries[handle]? with
      | none => exact ScopeM.ends_throw hscope
      | some entry =>
          simp only []
          by_cases hlive : entry.state.isLive = true
          · rw [if_pos hlive]
            exact ScopeM.ends_pure hscope
          · rw [if_neg hlive]
            exact ScopeM.ends_throw hscope
  | none =>
      simp only []
      by_cases hnegative : id.toInt < 0
      · rw [if_pos hnegative]
        exact ScopeM.ends_throw hscope
      · rw [if_neg hnegative]
        refine ScopeM.ends_bind ((lookUpRow_cases scope env _ _).mono (fun _ _ hdone => hdone)
          fun _ hfailed => h.of_lookUpRow hscope hfailed) ?_
        rintro row after ⟨hlooked, hrow⟩
        have hafter := h.of_lookUpRow hscope hlooked
        cases row with
        | none => exact ScopeM.ends_throw hafter
        | some row =>
            -- Looking the row up has changed neither the rows nor the keys of records.
            have hsame : after.staged = scope.staged ∧ after.identity = scope.identity := by
              rcases hlooked with rfl | rfl
              · exact ⟨rfl, rfl⟩
              · exact ⟨rfl, rfl⟩
            refine (h.materialize hafter hmem (by omega) ?_ ?_).mono
              (fun _ _ hdone => hdone.1) fun _ hfailed => hfailed
            · exact (visibleRow_congr (by rw [hsame.1])).trans hrow
            · rw [hsame.2]
              exact hfind

theorem keeps_related (handle : Handle) (field : String) :
    (related env handle field).Keeps kept := by
  refine (ScopeM.keeps_record handle).bind ?_
  intro source
  refine (ScopeM.keeps_lift _).bind ?_
  intro relationship
  refine ScopeM.keeps_get_bind ?_
  intro scope
  cases scope.links.find? (handle, relationship.column) with
  | some target => exact ScopeM.keeps_pure _
  | none =>
      refine (ScopeM.keeps_lift _).bind ?_
      intro value
      cases value with
      | null => exact ScopeM.keeps_pure _
      | integer id => exact (h.keeps_find hregistry _ _).bind fun _ => ScopeM.keeps_pure _
      | _ => exact ScopeM.keeps_throw _

/-! ## By value -/

omit hregistry in
/-- The record of a row that passes is there or is loaded; rows stay as they are. -/
theorem selectRow_ends (hscope : kept scope) (hmodel : model ∈ env.registry.models)
    (filter : Option (Column × Value)) {row : UInt64 × StoredRow}
    (hrow : scope.visibleRow env model.tableName row.1 = .ok (some row.2)) :
    (selectRow env model filter row).Ends scope
      (fun _ after => kept after ∧ after.staged = scope.staged) kept := by
  unfold selectRow
  refine ScopeM.ends_lift_bind ?_ hscope
  intro passed _
  cases passed with
  | false => exact ScopeM.ends_pure ⟨hscope, rfl⟩
  | true =>
      refine ScopeM.ends_lift_bind ?_ hscope
      intro id hid
      rcases keyOf_eq_ok hid with ⟨hpositive, hnumber⟩
      refine ScopeM.ends_get_bind ?_
      cases hfind : scope.identity.find? (model.name, id) with
      | some handle => exact ScopeM.ends_pure ⟨hscope, rfl⟩
      | none =>
          have hvisible : scope.visibleRow env model.tableName id.toUInt64 = .ok (some row.2) := by
            rw [hnumber]
            exact hrow
          refine ScopeM.ends_bind (h.materialize hscope hmodel hpositive hvisible hfind) ?_
          intro handle after hafter
          exact ScopeM.ends_pure hafter

omit hregistry in
theorem selectRows_ends (hscope : kept scope) (hmodel : model ∈ env.registry.models)
    (filter : Option (Column × Value)) {rows : List (UInt64 × StoredRow)}
    (hrows : ∀ row ∈ rows, scope.visibleRow env model.tableName row.1 = .ok (some row.2)) :
    (selectRows env model filter rows).Ends scope (fun _ => kept) kept := by
  induction rows generalizing scope with
  | nil => exact ScopeM.ends_pure hscope
  | cons row rest ih =>
      unfold selectRows
      refine ScopeM.ends_bind (h.selectRow_ends hscope hmodel filter
        (hrows row List.mem_cons_self)) ?_
      rintro found after ⟨hafter, hstaged⟩
      -- The rows of the rest are still visible, as nothing was staged.
      have hrest := ih hafter (by
        intro other hother
        have hsame : after.visibleRow env model.tableName other.1 =
            scope.visibleRow env model.tableName other.1 := visibleRow_congr (by rw [hstaged])
        rw [hsame]
        exact hrows other (List.mem_cons_of_mem _ hother))
      cases found with
      | none => exact hrest
      | some handle => exact ScopeM.ends_bind hrest fun _ _ hlast => ScopeM.ends_pure hlast

/-- What the flush leaves with which a look-up by value begins is kept. -/
theorem select_ends (hflush : (flush env).Ends scope (fun _ => kept) kept) (name : String)
    (filter : Option (String × Value)) :
    (select env name filter).Ends scope (fun _ => kept) kept := by
  refine ScopeM.ends_bind hflush ?_
  intro _ flushed hflushed
  refine ScopeM.ends_lift_bind ?_ hflushed
  intro model hmodel
  refine ScopeM.ends_lift_bind ?_ hflushed
  intro resolved _
  have hasked := h.consulted flushed hflushed
  refine ScopeM.ends_get_bind (ScopeM.ends_consult_bind ?_ hasked)
  intro rows hrows
  refine h.selectRows_ends hasked (hregistry.model_eq_ok.1 hmodel).1 resolved ?_
  -- What is selected from are the visible rows, one by one.
  rintro ⟨id, row⟩ hmem
  have hfound : rows.find? id = some row := SortedMap.find?_eq_some_iff.2 hmem
  rw [← hfound]
  exact find?_visibleRows hrows id

theorem findFirst_ends (hflush : (flush env).Ends scope (fun _ => kept) kept) (name attr : String)
    (value : Value) : (findFirst env name attr value).Ends scope (fun _ => kept) kept :=
  ScopeM.ends_bind (h.select_ends hregistry hflush name _) fun _ _ hafter => ScopeM.ends_pure hafter

theorem findOne_ends (hflush : (flush env).Ends scope (fun _ => kept) kept) (name attr : String)
    (value : Value) : (findOne env name attr value).Ends scope (fun _ => kept) kept := by
  refine ScopeM.ends_bind (h.select_ends hregistry hflush name _) ?_
  intro found after hafter
  match found with
  | [handle] => exact ScopeM.ends_pure hafter
  | [] => exact ScopeM.ends_throw hafter
  | _ :: _ :: _ => exact ScopeM.ends_throw hafter

end Loadable

namespace Lookable

variable (h : Lookable env kept) (hregistry : env.registry.Consistent)

include h hregistry

theorem keeps_select (name : String) (filter : Option (String × Value)) :
    (select env name filter).Keeps kept :=
  fun scope hscope => h.select_ends hregistry (h.flush scope hscope) name filter

theorem keeps_findFirst (name attr : String) (value : Value) :
    (findFirst env name attr value).Keeps kept :=
  fun scope hscope => h.findFirst_ends hregistry (h.flush scope hscope) name attr value

theorem keeps_findOne (name attr : String) (value : Value) :
    (findOne env name attr value).Keeps kept :=
  fun scope hscope => h.findOne_ends hregistry (h.flush scope hscope) name attr value

theorem keeps_findSession (value : Value) : (findSession env value).Keeps kept := by
  unfold findSession
  split
  · exact h.keeps_find hregistry _ _
  · exact h.keeps_findOne hregistry _ _ _
  · exact ScopeM.keeps_throw _

/-! ## Through collections -/

theorem keeps_referring (id : Int64) (references : List BackReference) :
    (referring env id references).Keeps kept := by
  induction references with
  | nil => exact ScopeM.keeps_pure []
  | cons reference rest ih =>
      refine (h.keeps_select hregistry _ _).bind ?_
      intro first
      exact ih.bind fun others => ScopeM.keeps_pure _

theorem keeps_backReference (handle : Handle) (name : String) :
    (backReference env handle name).Keeps kept := by
  refine (ScopeM.keeps_record handle).bind ?_
  intro target
  refine ScopeM.keeps_ite _ ((ScopeM.keeps_throw _).bind fun _ => ?_) ?_
  all_goals
    refine ScopeM.keeps_ite _ (h.flush.bind fun _ => ?_) ?_
  all_goals
    -- After both checks the record may have got a key.
    refine (ScopeM.keeps_record handle).bind ?_
    intro current
    cases current.id with
    | some id => exact h.keeps_referring hregistry id _
    | none => exact ScopeM.keeps_pure []

end Lookable

end Scope

end RecordStore
