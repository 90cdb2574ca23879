import RecordStore.Proofs.Scope.Collections

/-!
# How often collections hold a record

A collection is looked up one reference after the other, so it holds a record once for each reference by which
the row of the record refers to the owner (`collection_counts_references`).  A record with two references to one
model can be in a collection twice (`transfer_is_collected_twice`).
-/

namespace RecordStore

namespace Scope

variable {env : Environment} {deleted : List (String × UInt64)} {scope : Scope} {owner : Record}
  {name : String} {handles : List Handle}

/-- In a collection to which each model contributes by at most one reference, records refer by one at most. -/
theorem length_memberships_le_one
    (hsingle : ((env.registry.collection owner.modelName name).map (·.source)).Nodup) (record : Record) :
    (scope.memberships env owner name record).length ≤ 1 := by
  unfold memberships
  cases owner.id with
  | none => exact Nat.zero_le 1
  | some id =>
      have honce := List.nodup_iff_count_le_one.1 hsingle record.modelName
      rw [List.count, List.countP_map] at honce
      rw [← List.countP_eq_length_filter]
      refine (List.countP_mono_left ?_).trans honce
      intro reference _ hrefers
      exact (Bool.and_eq_true_iff.1 hrefers).1

variable (hregistry : env.registry.Consistent)
  (hcount : ∀ model ∈ env.registry.models, model.columns.length < 4294967296)
  (hrooted : scope.Rooted env) (hsound : scope.SoundRows env deleted)

include hregistry hcount hrooted hsound

/-- What is in a collection is there as many times as it refers to the owner. -/
theorem Gathers.exists_entry (h : scope.Gathers env owner name handles) {handle : Handle}
    (hmem : handle ∈ handles) : ∃ entry, scope.entries[handle]? = some entry ∧
      handles.count handle = (scope.memberships env owner name entry.record).length := by
  obtain ⟨source, key, hfind⟩ := h.exists_key hmem
  obtain ⟨entry, hentry, rfl, -⟩ := hrooted.standsFor hfind
  exact ⟨entry, hentry, h.count_eq hregistry hcount hrooted hsound hentry hfind⟩

end Scope

namespace Course.Intact

variable {registry : Registry} {terms : Terms} {course : Course} {target : Handle} {name : String}
  {handles : List Handle} {after : Database}

/-- A collection that is returned is gathered in the scope that is open then. -/
theorem backReference (h : course.Intact registry terms) (hregistry : registry.Consistent)
    (hcount : ∀ model ∈ registry.models, model.columns.length < 4294967296)
    (hrun : course.db.run (Scope.backReference · target name) = (.ok handles, after)) :
    ∃ last owner, after = course.db.resume last ∧ last.Rooted course.db.environment ∧
      last.SoundRows course.db.environment course.deleted ∧ last.entries[target]? = some owner ∧
      last.Gathers course.db.environment owner.record name handles := by
  have hconsistent := h.registry_consistent hregistry
  obtain ⟨scope, last, hscope, hback, rfl⟩ := Database.run_eq_ok.1 hrun
  have hopened := h.opened scope hscope
  have hsound : ∀ flushed, (Scope.flush course.db.environment).run
      { scope with supply := course.db.supply } = .ok () flushed →
        flushed.SoundRows course.db.environment course.deleted := fun _ hflush =>
    (h.flushed hregistry hcount hscope hflush).rows
  have hlook := @Scope.lookable_reaches _ terms _ hopened.rooted
  have hreached := (hlook.keeps_backReference hconsistent target name _ Relation.ReflTransGen.refl).of_ok hback
  obtain ⟨flushed, owner, hflush, hloads, howner, hgathers⟩ := (Scope.backReference_gathers hconsistent
    (h.counted hcount) hopened.rooted hsound target name).of_ok hback
  exact ⟨last, owner, rfl, hopened.rooted.reaches hreached, (hsound flushed hflush).congr hloads.staged,
    howner, hgathers⟩

end Course.Intact

/-- A collection holds a record once for each of its references to the owner.  Take a database to which nothing
has happened and any course of events in which the records that come from outside are of its models.  When a
collection of a record is returned, each handle in it is that of a record, and it is there as many times as
there are references, of those that make up the collection, by which the row of the record refers to the owner.
So the records in it are distinct exactly if each refers by one of them only, and always where each model
contributes by one reference at most. -/
theorem collection_counts_references {db : Database} (hfresh : db.Fresh) {terms : Terms}
    {events : List Event} (hmeets : Course.Meets terms { db } events) {target : Handle} {name : String}
    {handles : List Handle} {after : Database}
    (hrun : (events.foldl Course.step { db }).db.run (Scope.backReference · target name) =
      (.ok handles, after)) :
    ∃ scope owner, after.scope = some scope ∧ scope.entries[target]? = some owner ∧
      (∀ handle ∈ handles, ∃ entry, scope.entries[handle]? = some entry ∧ handles.count handle =
        (scope.memberships after.environment owner.record name entry.record).length) ∧
      (handles.Nodup ↔ ∀ handle ∈ handles, ∀ entry, scope.entries[handle]? = some entry →
        (scope.memberships after.environment owner.record name entry.record).length = 1) ∧
      (((db.registry.collection owner.record.modelName name).map (·.source)).Nodup → handles.Nodup) := by
  have hintact : (events.foldl Course.step { db }).Intact db.registry terms := hfresh.intact hmeets
  generalize events.foldl Course.step { db } = course at *
  obtain ⟨scope, owner, rfl, hrooted, hsound, howner, hgathers⟩ :=
    hintact.backReference hfresh.consistent hfresh.counted hrun
  have hcounts := fun handle (hmem : handle ∈ handles) => hgathers.exists_entry
    (hintact.registry_consistent hfresh.consistent) (hintact.counted hfresh.counted) hrooted hsound hmem
  have hdistinct : handles.Nodup ↔ ∀ handle ∈ handles, ∀ entry, scope.entries[handle]? = some entry →
      (scope.memberships course.db.environment owner.record name entry.record).length = 1 := by
    rw [List.nodup_iff_count_eq_one]
    refine forall₂_congr fun handle hmem => ?_
    obtain ⟨entry, hentry, hcount⟩ := hcounts handle hmem
    simp [hentry, hcount]
  refine ⟨scope, owner, rfl, howner, hcounts, hdistinct, ?_⟩
  intro hsingle
  rw [← hintact.registry_eq] at hsingle
  refine hdistinct.2 fun handle hmem entry hentry => ?_
  obtain ⟨found, hfound, hcount⟩ := hcounts handle hmem
  obtain rfl := Option.some.inj (hentry.symm.trans hfound)
  have hle := @Scope.length_memberships_le_one course.db.environment scope _ _ hsingle entry.record
  have hpos := List.count_pos_iff.2 hmem
  omega

/-! ## Accounts and transfers -/

/-- Accounts, and transfers from one account to another. -/
def accountsAndTransfers : Database := .inMemory [
  .register (.declaration {
    name := "Account", tableName := some "accounts", relatedName := some "accounts" }),
  .register (.declaration {
    name := "Transfer", tableName := some "transfers", relatedName := some "transfers"
    overrides := [("from", .typed (.reference "Account")), ("to", .typed (.reference "Account"))] })]

theorem accountsAndTransfers_fresh : accountsAndTransfers.Fresh := by
  refine Database.fresh_inMemory ?_ (by decide +kernel)
  simp [Registry.Call.Admissible, Candidate.Admissible, Blueprint.Composed.base]

/-- A transfer is made from an account to the same account. -/
def transferIsInternal : List Event := [
  .createSchema, .openScope, .deed (.act (.create "Account")), .deed (.act (.create "Transfer")),
  .deed (.act (.setReference 1 "from" 0)), .deed (.act (.setReference 1 "to" 0))]

/-- The transfer refers to the account twice, and is in its collection as many times. -/
theorem collection_counts_references_of_transfer :
    let course := transferIsInternal.foldl Course.step { db := accountsAndTransfers }
    ∃ after scope owner entry, course.db.run (Scope.backReference · 0 "transfers") = (.ok [1, 1], after) ∧
      after.scope = some scope ∧ scope.entries[0]? = some owner ∧ scope.entries[1]? = some entry ∧
      (scope.memberships after.environment owner.record "transfers" entry.record).length = 2 := by
  have hmeets : Course.Meets { grounded := True, undeleted := True } { db := accountsAndTransfers }
      transferIsInternal :=
    Course.meets_of_brings_nothing (by simp [transferIsInternal]) (by simp [transferIsInternal]) _
  have hrun : ((transferIsInternal.foldl Course.step { db := accountsAndTransfers }).db.run
      (Scope.backReference · 0 "transfers")).1.toOption = some [1, 1] := by
    decide +kernel
  have hmain := @collection_counts_references _ accountsAndTransfers_fresh _ _ hmeets 0 "transfers"
  -- From here on the course is not computed any more.
  generalize transferIsInternal.foldl Course.step { db := accountsAndTransfers } = course at *
  have hdone : course.db.run (Scope.backReference · 0 "transfers") = (.ok [1, 1], _) :=
    Prod.ext (toOption_eq_some.1 hrun) rfl
  obtain ⟨scope, owner, hscope, howner, hcounts, -⟩ := hmain hdone
  obtain ⟨entry, hentry, hcount⟩ := hcounts 1 (by simp)
  exact ⟨_, scope, owner, entry, hdone, hscope, howner, hentry, hcount.symm⟩

/-- The collection of the account holds the transfer twice. -/
theorem transfer_is_collected_twice :
    let course := transferIsInternal.foldl Course.step { db := accountsAndTransfers }
    ∃ handles ∈ (course.db.run (Scope.backReference · 0 "transfers")).1.toOption, ¬handles.Nodup := by
  decide +kernel

end RecordStore
