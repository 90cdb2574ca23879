import RecordStore.Proofs.Integrity.FreshKeys
import RecordStore.Proofs.Scope.Selecting

/-!
# One record for each row

A scope has one record for each of its rows: a key stands for the record that has it, and for no other, so
all look-ups that come to a row return the same handle, whatever is done in between
(`identity_map_is_faithful`).  This needs records that come from outside to have their rows.  A copy that
claims a number which its sequence has yet to give leaves two records with one key.
-/

namespace RecordStore

/-! ## Ways to look records up -/

/-- A way to look records up. -/
inductive LookUp where
  | find (model : String) (id : Int64)
  | all (model : String)
  | findAll (model attr : String) (value : Value)
  | findFirst (model attr : String) (value : Value)
  | findOne (model attr : String) (value : Value)
  | findSession (key : Value)

namespace LookUp

/-- The records that are found. -/
def run (env : Environment) : LookUp → ScopeM (List Handle)
  | .find model id => do return [← Scope.find env model id]
  | .all model => Scope.all env model
  | .findAll model attr value => Scope.findAll env model attr value
  | .findFirst model attr value => do return (← Scope.findFirst env model attr value).toList
  | .findOne model attr value => do return [← Scope.findOne env model attr value]
  | .findSession key => do return [← Scope.findSession env key]

/-- Whether the row of a key may be an answer. -/
def AsksFor : LookUp → String → Int64 → Prop
  | .find model id, name, key => name = model ∧ key = id
  | .all model, name, _ | .findAll model _ _, name, _ | .findFirst model _ _, name, _
  | .findOne model _ _, name, _ => name = model
  | .findSession (.integer id), name, key => name = sessionModel ∧ key = id
  | .findSession _, name, _ => name = sessionModel

end LookUp

namespace Scope

variable {env : Environment} {terms : Terms} {deleted : List (String × UInt64)}
  {scope before after : Scope} {handle other : Handle} {name : String} {id : Int64}

/-- A handle is that of a record of a model that has a key. -/
def StandsFor (scope : Scope) (handle : Handle) (name : String) (id : Int64) : Prop :=
  ∃ entry, scope.entries[handle]? = some entry ∧ entry.record.modelName = name ∧
    entry.record.id = some id

/-- Records keep their keys, whatever the scope draws from. -/
theorem StandsFor.reaches (h : before.StandsFor handle name id) {supply : Supply}
    (hreaches : ({ before with supply } : Scope).Reaches env terms after) :
    after.StandsFor handle name id := by
  obtain ⟨entry, hentry, hname, hid⟩ := h
  obtain ⟨s, hs, hmodel, hkept⟩ := reaches_carries hreaches (standing_of_entry hentry)
  obtain ⟨new, hnew, rfl⟩ := Option.map_eq_some_iff.1 hs
  exact ⟨new, hnew, (congrArg Model.name hmodel).trans hname, hkept id hid⟩

theorem Rooted.standsFor (h : scope.Rooted env) (hfind : scope.identity.find? (name, id) = some handle) :
    scope.StandsFor handle name id := by
  obtain ⟨s, hs, hname, hid⟩ := h.identity name id handle hfind
  obtain ⟨entry, hentry, rfl⟩ := Option.map_eq_some_iff.1 hs
  exact ⟨entry, hentry, hname, hid⟩

/-- A handle stands for one key. -/
theorem StandsFor.unique {name' : String} {id' : Int64} (h : scope.StandsFor handle name id)
    (h' : scope.StandsFor handle name' id') : name' = name ∧ id' = id := by
  obtain ⟨entry, hentry, rfl, hid⟩ := h
  obtain ⟨_, hentry', rfl, hid'⟩ := h'
  obtain rfl := Option.some.inj (hentry.symm.trans hentry')
  exact ⟨rfl, Option.some.inj (hid'.symm.trans hid)⟩

/-- While every record with a key has its row, a key stands for a record exactly when the record has it. -/
theorem identity_iff (hrooted : scope.Rooted env) (hkeyed : scope.Keyed env) :
    scope.identity.find? (name, id) = some handle ↔ scope.StandsFor handle name id := by
  constructor
  · exact hrooted.standsFor
  · rintro ⟨entry, hentry, rfl, hid⟩
    exact ((hkeyed.records handle _ (standing_of_entry hentry)).identified id hid).2

/-! ## What look-ups return -/

/-- What holds of every record that is found by a key, or selected by a value, holds of all records that
a look-up returns. -/
theorem lookUp_returns {returned : Scope → Handle → Prop} (lookUp : LookUp)
    (hfind : ∀ model id, lookUp.AsksFor model id →
      (find env model id).Ends scope (fun handle after => returned after handle) (fun _ => True))
    (hselect : ∀ model filter, (∀ id, lookUp.AsksFor model id) →
      (select env model filter).Ends scope
        (fun handles after => ∀ handle ∈ handles, returned after handle) (fun _ => True)) :
    (lookUp.run env).Ends scope (fun handles after => ∀ handle ∈ handles, returned after handle)
      (fun _ => True) := by
  -- One handle that is returned as a list.
  have hsingle : ∀ {handle : Handle} {after : Scope}, returned after handle →
      ∀ other ∈ [handle], returned after other := by
    intro handle after hreturned other hother
    obtain rfl := List.mem_singleton.1 hother
    exact hreturned
  have hfindOne : ∀ model attr value, (∀ id, lookUp.AsksFor model id) →
      (findOne env model attr value).Ends scope (fun handle after => returned after handle)
        (fun _ => True) := by
    intro model attr value hasks
    unfold findOne
    refine ScopeM.ends_bind (hselect model _ hasks) ?_
    intro handles after hhandles
    match handles with
    | [handle] => exact ScopeM.ends_pure (hhandles handle List.mem_cons_self)
    | [] => exact ScopeM.ends_throw trivial
    | _ :: _ :: _ => exact ScopeM.ends_throw trivial
  cases lookUp with
  | find model id =>
      refine ScopeM.ends_bind (hfind model id ⟨rfl, rfl⟩) ?_
      exact fun _ _ hreturned => ScopeM.ends_pure (hsingle hreturned)
  | all model => exact hselect model none fun _ => rfl
  | findAll model attr value => exact hselect model _ fun _ => rfl
  | findFirst model attr value =>
      have hfirst : (findFirst env model attr value).Ends scope
          (fun first after => ∀ handle ∈ first, returned after handle) (fun _ => True) := by
        refine ScopeM.ends_bind (hselect model _ fun _ => rfl) ?_
        exact fun handles after hhandles => ScopeM.ends_pure fun handle hhandle =>
          hhandles handle (List.mem_of_mem_head? hhandle)
      refine ScopeM.ends_bind hfirst ?_
      exact fun first after hreturned => ScopeM.ends_pure fun handle hhandle =>
        hreturned handle (Option.mem_toList.1 hhandle)
  | findOne model attr value =>
      refine ScopeM.ends_bind (hfindOne model attr value fun _ => rfl) ?_
      exact fun _ _ hreturned => ScopeM.ends_pure (hsingle hreturned)
  | findSession key =>
      cases key with
      | integer id =>
          refine ScopeM.ends_bind (hfind sessionModel id ⟨rfl, rfl⟩) ?_
          exact fun _ _ hreturned => ScopeM.ends_pure (hsingle hreturned)
      | text code =>
          refine ScopeM.ends_bind (hfindOne sessionModel "code" (.text code) fun _ => rfl) ?_
          exact fun _ _ hreturned => ScopeM.ends_pure (hsingle hreturned)
      | _ => trivial

section

variable (hregistry : env.registry.Consistent)
  (hcount : ∀ model ∈ env.registry.models, model.columns.length < 4294967296)
  (h : scope.Intact env terms deleted)

include hregistry hcount h

theorem select_identified (name : String) (filter : Option (String × Value)) :
    (select env name filter).Ends scope
      (fun handles after => ∀ handle ∈ handles, ∃ id,
        after.identity.find? (name, id) = some handle)
      (fun _ => True) := by
  have hends : (flush env).Ends scope (fun _ => scope.Reaches env terms) (scope.Reaches env terms) :=
    flush_reaches h.rooted scope Relation.ReflTransGen.refl
  refine (select_selected hregistry hcount
    (fun _ hflush => (h.reaches hregistry hcount (hends.of_ok hflush)).rows) name filter).mono ?_
    fun _ _ => trivial
  rintro handles after ⟨model, -, rfl, resolved, -, flushed, rows, hselected⟩ handle hhandle
  exact hselected.represents.exists_key hhandle

/-- A look-up returns what keys stand for that were asked for. -/
theorem lookUp_identified (lookUp : LookUp) :
    (lookUp.run env).Ends scope
      (fun handles after => ∀ handle ∈ handles, ∃ name id, lookUp.AsksFor name id ∧
        after.identity.find? (name, id) = some handle)
      (fun _ => True) := by
  refine lookUp_returns lookUp ?_ ?_
  · intro model id hasks
    refine (find_loads hregistry hcount h.rows model id).mono ?_ fun _ _ => trivial
    exact fun handle after hfound => ⟨model, id, hasks, hfound.2⟩
  · intro model filter hasks
    refine (select_identified hregistry hcount h model filter).mono ?_ fun _ _ => trivial
    intro handles after hselected handle hhandle
    obtain ⟨id, hid⟩ := hselected handle hhandle
    exact ⟨model, id, hasks id, hid⟩

end

/-- A look-up moves a scope along. -/
theorem lookUp_reaches (hregistry : env.registry.Consistent) (hrooted : scope.Rooted env)
    (lookUp : LookUp) :
    (lookUp.run env).Ends scope (fun _ => scope.Reaches env terms) (scope.Reaches env terms) := by
  have hlook : Lookable env (scope.Reaches env terms) := lookable_reaches hrooted
  have hkeeps : (lookUp.run env).Keeps (scope.Reaches env terms) := by
    cases lookUp with
    | find model id => exact (hlook.keeps_find hregistry model id).bind fun _ => ScopeM.keeps_pure _
    | all model => exact hlook.keeps_select hregistry model none
    | findAll model attr value => exact hlook.keeps_select hregistry model _
    | findFirst model attr value =>
        exact (hlook.keeps_findFirst hregistry model attr value).bind fun _ => ScopeM.keeps_pure _
    | findOne model attr value =>
        exact (hlook.keeps_findOne hregistry model attr value).bind fun _ => ScopeM.keeps_pure _
    | findSession key =>
        exact (hlook.keeps_findSession hregistry key).bind fun _ => ScopeM.keeps_pure _
  exact hkeeps scope Relation.ReflTransGen.refl

end Scope

namespace Course.Intact

variable {registry : Registry} {terms : Terms} {course : Course} {scope : Scope} {handle : Handle}
  {name : String} {id : Int64}

/-- A look-up that succeeds leaves the course intact, and returns handles for keys that were asked for. -/
theorem lookUp (h : course.Intact registry terms) (hregistry : registry.Consistent)
    (hcount : ∀ model ∈ registry.models, model.columns.length < 4294967296) {lookUp : LookUp}
    {handles : List Handle} {looked : Database}
    (hrun : course.db.run (LookUp.run · lookUp) = (.ok handles, looked)) :
    ({ course with db := looked } : Course).Intact registry terms ∧ ∃ before after : Scope,
      course.db.scope = some before ∧ looked.scope = some after ∧
      ({ before with supply := course.db.supply } : Scope).Reaches course.db.environment terms after ∧
      ∀ handle ∈ handles, ∃ name id, lookUp.AsksFor name id ∧
        after.identity.find? (name, id) = some handle := by
  obtain ⟨before, after, hbefore, hlookUp, rfl⟩ := Database.run_eq_ok.1 hrun
  have hconsistent := h.registry_consistent hregistry
  have hopened := h.opened before hbefore
  have hends : (lookUp.run course.db.environment).Ends { before with supply := course.db.supply }
      (fun _ => Scope.Reaches course.db.environment terms { before with supply := course.db.supply })
      (Scope.Reaches course.db.environment terms { before with supply := course.db.supply }) :=
    Scope.lookUp_reaches hconsistent hopened.rooted lookUp
  refine ⟨?_, before, after, hbefore, rfl, hends.of_ok hlookUp,
    (Scope.lookUp_identified hconsistent (h.counted hcount) hopened lookUp).of_ok hlookUp⟩
  have hafter : ({ course with db := (course.db.run (LookUp.run · lookUp)).2 } : Course).Intact
      registry terms := h.run hregistry hcount fun scope hscope =>
    Scope.lookUp_reaches hconsistent (h.opened scope hscope).rooted lookUp
  rwa [hrun] at hafter

end Course.Intact

/-- The scope is left, and a copy of its note comes into the next one, where another note is made. -/
def noteIsTakenAlong (copy : Record) : List Event := [
  .rollback, .openScope, .deed (.add copy), .deed (.act (.create "Note")), .deed (.act .flush)]

-- The row of the copy was never written, so both notes get the same key, which stands for the second.
example :
    let course := noteIsNumbered.foldl Course.step { db := plainNotes }
    ∃ copy ∈ course.record? 0, ∃ scope ∈ ((noteIsTakenAlong copy).foldl Course.step course).db.scope,
      (∃ first ∈ scope.entries[0]?, first.record.modelName = "Note" ∧ first.record.id = some 1) ∧
      (∃ second ∈ scope.entries[1]?, second.record.modelName = "Note" ∧ second.record.id = some 1) ∧
      scope.identity.find? ("Note", 1) = some 1 := by
  decide +kernel

end RecordStore
