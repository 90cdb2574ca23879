import RecordStore.Proofs.Integrity.FailedFlushes
import RecordStore.Proofs.Integrity.FreshKeys
import RecordStore.Proofs.Scope.Referring

/-!
# The reference that was assigned last

A reference is assigned in two ways: a record is set as what a relationship refers to, or a key is assigned to
the column of the relationship.  The first way cancels what was there, be it a link or a key.  The second does
not take away a link (`Scope.Assigns`): when the link is filled, the key that was assigned is lost
(`key_is_outdone_by_link`).  Up to this the reference that was assigned last is the one that is staged, whatever
is done before the flush that leaves the reference alone (`last_reference_is_staged`).
-/

namespace RecordStore

namespace Scope

variable {env : Environment} {terms : Terms} {deleted : List (String × UInt64)} {scope : Scope}
  {handle : Handle} {entry : Entry} {column : Column} {referent : Referent}

/-! ## Assignments -/

/-- What an act assigns to a column of references, if it succeeds.  A link outdoes a key that is assigned while
it is there. -/
inductive Assigns (scope : Scope) (handle : Handle) (name : String) : Act → Referent → Prop where
  | reference {entry : Entry} {field : String} {relationship : Relationship} (target : Handle) :
      scope.entries[handle]? = some entry → relationshipOf entry.record field = .ok relationship →
      relationship.column = name →
      Assigns scope handle name (.setReference handle field target) (.record target)
  | key (id : Int64) : scope.links.find? (handle, name) = none →
      Assigns scope handle name (.assign handle name (.integer id)) (.key id)
  | outdone (target : Handle) (id : Int64) : scope.links.find? (handle, name) = some target →
      Assigns scope handle name (.assign handle name (.integer id)) (.record target)

theorem Assigns.of_same {before after : Scope} {name : String} {act : Act}
    (h : before.Assigns handle name act referent) (hentries : after.entries = before.entries)
    (hlinks : after.links = before.links) : after.Assigns handle name act referent := by
  cases h with
  | reference target hentry hrelationship hname =>
      exact .reference target (hentries ▸ hentry) hrelationship hname
  | key id hnone => exact .key id (hlinks ▸ hnone)
  | outdone target id hlink => exact .outdone target id (hlinks ▸ hlink)

/-- What is assigned is held by the column afterwards. -/
theorem Assigns.ends (hregistry : env.registry.Consistent) (hrooted : scope.Rooted env)
    (hentry : scope.entries[handle]? = some entry) (hcolumn : entry.record.model.ReferenceColumn column)
    {act : Act} (h : scope.Assigns handle column.name act referent) :
    (act.perform env).Ends scope (fun _ after => after.Assigned handle column referent)
      (fun _ => True) := by
  -- Assigning a key leaves the links, so it depends on them what the column is going to hold.
  have hkey : ∀ id : Int64,
      (scope.links.find? (handle, column.name) = none ∧ referent = .key id ∨
        ∃ target, scope.links.find? (handle, column.name) = some target ∧ referent = .record target) →
      (updateRecord handle fun record => record.set column.name (.integer id)).Ends scope
        (fun _ after => after.Assigned handle column referent) (fun _ => True) := by
    intro id hreferent
    refine (updateRecord_cases scope handle _).mono ?_ fun _ _ => trivial
    rintro _ _ ⟨found, changed, hfound, hset, rfl⟩
    obtain rfl := Option.some.inj (hentry.symm.trans hfound)
    rw [set_eq_ok hset]
    exact assigned_key hregistry hrooted hentry hcolumn id hreferent
  cases h with
  | reference target hfound hrelationship hname =>
      refine (setReference_cases scope handle _ target).mono ?_ fun _ _ => trivial
      rintro _ _ ⟨source, relationship, referred, hsource, hown, hreferred, -, rfl⟩
      obtain rfl := Option.some.inj (hentry.symm.trans hfound)
      obtain rfl := Option.some.inj (hentry.symm.trans hsource)
      obtain rfl := Except.ok.inj (hrelationship.symm.trans hown)
      rw [hname]
      exact assigned_refer hregistry hrooted hentry hcolumn hreferred
  | key id hnone => exact hkey id (Or.inl ⟨hnone, rfl⟩)
  | outdone target id hlink => exact hkey id (Or.inr ⟨target, hlink, rfl⟩)

/-! ## What is done afterwards -/

/-- A deed leaves a reference alone: it assigns nothing to the column, it puts no other record in the place of
the record, and if it flushes, the link is not lost. -/
def SparesReference (scope : Scope) (handle : Handle) (name : String) : Deed → Prop
  | .act (.create _) | .act (.delete _) => True
  | .act (.assign other attr _) => other = handle → attr ≠ name
  | .act (.setReference other field _) => other = handle → ∀ entry relationship,
      scope.entries[handle]? = some entry → relationshipOf entry.record field = .ok relationship →
        relationship.column ≠ name
  -- All other acts look records up, for which they may flush.
  | .act _ => scope.KeepsLink (handle, name)
  -- The record that stands for the key is replaced as a whole.
  | .add record => ∀ id, record.id = some id →
      scope.identity.find? (record.modelName, id) ≠ some handle
  | .edit other edit => other = handle → ∀ entry changed, scope.entries[handle]? = some entry →
      edit.change entry.record = .ok changed →
        changed.isChanged name = entry.record.isChanged name ∧
          changed.values.find? name = entry.record.values.find? name

variable {name : String}

theorem updateRecord_spares (other : Handle) (edit : Edit)
    (hspared : scope.SparesReference handle name (.edit other edit)) :
    (updateRecord other edit.change).Ends scope (fun _ after => scope.Spares after handle name)
      (fun after => scope.Spares after handle name) := by
  refine (updateRecord_cases scope other edit.change).mono ?_ ?_
  · rintro _ _ ⟨entry, changed, hentry, hchanged, rfl⟩
    refine .modifyRecord ?_
    intro found hfound
    obtain rfl := Option.some.inj (hentry.symm.trans hfound)
    obtain ⟨hmodel, hid⟩ := edit.keeps _ _ hchanged
    refine ⟨hmodel, fun _ hkey => hid.trans hkey, ?_⟩
    rintro rfl
    exact hspared rfl _ _ hentry hchanged
  · rintro _ rfl
    exact .refl _ handle name

theorem setReference_spares (other : Handle) (field : String) (target : Handle)
    (hspared : scope.SparesReference handle name (.act (.setReference other field target))) :
    (setReference other field target).Ends scope (fun _ after => scope.Spares after handle name)
      (fun after => scope.Spares after handle name) := by
  refine (setReference_cases scope other field target).mono ?_ ?_
  · rintro _ _ ⟨entry, relationship, referred, hentry, hrelationship, -, -, rfl⟩
    -- It is another column, be it of another record or of the same.
    refine .refer ?_ target _
    intro hsame
    cases hsame
    exact hspared rfl entry relationship hentry hrelationship rfl
  · rintro _ rfl
    exact .refl _ handle name

theorem create_spares (model : String) :
    (create env model).Ends scope (fun _ after => scope.Spares after handle name)
      (fun after => scope.Spares after handle name) := by
  refine (create_cases env scope model).mono ?_ ?_
  · rintro _ _ ⟨found, -, rfl⟩
    exact .appendAs scope _ scope.identity handle name
  · rintro _ rfl
    exact .refl _ handle name

theorem add_spares (hregistry : env.registry.Consistent) (hrooted : scope.Rooted env) {record : Record}
    (hmodel : record.model ∈ env.registry.models)
    (hspared : scope.SparesReference handle name (.add record)) :
    (add record).Ends scope (fun _ after => scope.Spares after handle name)
      (fun after => scope.Spares after handle name) := by
  refine (add_cases scope record).mono ?_ fun _ => False.elim
  rintro _ _ hadds
  cases hadds with
  | enter => exact .appendAs scope _ scope.identity handle name
  | adopt => exact .appendAs scope _ _ handle name
  | replace id other hid hfind =>
      refine .modifyRecord ?_
      intro entry hentry
      obtain ⟨hsame, hkey⟩ := hrooted.replaced hregistry hmodel hid hfind hentry
      refine ⟨hsame, fun _ hheld => hkey.trans hheld, ?_⟩
      rintro rfl
      exact absurd hfind (hspared id hid)

/-- A deed that leaves a reference alone keeps what does not depend on anything else, if looking records up
does. -/
theorem perform_of_spares (hregistry : env.registry.Consistent) (hrooted : scope.Rooted env) {deed : Deed}
    (hregistered : ∀ record, deed = .add record → record.model ∈ env.registry.models)
    (hspared : scope.SparesReference handle name deed) {kept : Scope → Prop}
    (hkept : ∀ after, scope.Spares after handle name → kept after)
    (hlooked : ∀ act : Act, act.LooksUp → scope.KeepsLink (handle, name) →
      (act.perform env).Ends scope (fun _ => kept) kept) :
    (deed.perform env).Ends scope (fun _ => kept) kept := by
  -- Of most deeds it is enough to know what they do not touch.
  have hkeeps : ∀ {α : Type} {action : ScopeM α}, action.Ends scope
      (fun _ after => scope.Spares after handle name) (fun after => scope.Spares after handle name) →
      action.Ends scope (fun _ => kept) kept := fun hends => hends.mono (fun _ => hkept) hkept
  cases deed with
  | add record =>
      exact ScopeM.ends_discard (hkeeps (add_spares hregistry hrooted (hregistered record rfl) hspared))
  | edit other edit => exact hkeeps (updateRecord_spares other edit hspared)
  | act act =>
      change (act.perform env).Ends scope _ _
      cases act with
      | create model => exact ScopeM.ends_discard (hkeeps (create_spares model))
      | assign other attr value =>
          refine hkeeps (updateRecord_spares other (.set attr value) ?_)
          rintro rfl entry changed - hset
          have hname : name ≠ attr := (hspared rfl).symm
          rw [set_eq_ok hset]
          exact ⟨(Record.isChanged_markChanged ..).trans (if_neg hname),
            (Record.find?_putValue ..).trans (if_neg hname)⟩
      | setReference other field target => exact hkeeps (setReference_spares other field target hspared)
      | delete other =>
          refine hkeeps (ScopeM.ends_entry_bind ?_ (.refl scope handle name))
          exact fun _ _ => Spares.withdraw scope other handle name
      | _ => exact hlooked _ (by trivial) hspared

section

variable (hregistry : env.registry.Consistent)
  (hcount : ∀ model ∈ env.registry.models, model.columns.length < 4294967296)
  (hgrounded : terms.grounded)

include hregistry hcount hgrounded

/-- A deed that leaves a reference alone does not lose it, whether it succeeds or fails. -/
theorem perform_assigned (h : scope.Intact env terms deleted) (horderly : scope.Orderly) {deed : Deed}
    (hregistered : ∀ record, deed = .add record → record.model ∈ env.registry.models)
    (hspared : scope.SparesReference handle column.name deed)
    (hassigned : scope.Assigned handle column referent) :
    (deed.perform env).Ends scope (fun _ after => after.Assigned handle column referent)
      (fun after => after.Assigned handle column referent) := by
  refine perform_of_spares hregistry h.rooted hregistered hspared (fun _ => hassigned.transfer) ?_
  intro act hlooks hlink
  exact (Act.keeps_of_looksUp (lookable_assigned hregistry hcount hgrounded h) hregistry hlooks scope
    ⟨⟨Relation.ReflTransGen.refl, horderly⟩, hlink, hassigned⟩).mono
    (fun _ _ hdone => hdone.2.2) fun _ hfailed => hfailed.2.2

/-- After a flush that succeeds, the reference of a record that is to stay is in its staged row. -/
theorem flush_stages (h : scope.Intact env terms deleted) (horderly : scope.Orderly)
    (hassigned : scope.Assigned handle column referent) :
    (flush env).Ends scope
      (fun _ last => ∃ entry, last.entries[handle]? = some entry ∧ (entry.state.isLive = true →
        ∃ id number row columns, last.referentKey? referent = some id ∧
          entry.record.id = some number ∧
          last.staged.find? (entry.record.model.tableName, number.toUInt64) = some (some row) ∧
          row.Holds columns ∧ storedColumn columns column.name = .integer id))
      (fun _ => True) := by
  refine ((flush_assigned hregistry hcount hgrounded h horderly hassigned).and
    (flush_rests env scope)).mono ?_ fun _ _ => trivial
  rintro _ last ⟨⟨entry, hentry, -, hpoints⟩, hrests⟩
  refine ⟨entry, hentry, ?_⟩
  intro hlive
  -- Nothing is linked or marked any more.
  cases hpoints hlive with
  | linked target _ hlink =>
      rw [hrests.unlinked] at hlink
      cases hlink
  | held id _ hkey hleaves =>
      cases hleaves with
      | marked _ hmarked =>
          rcases hrests.settled handle entry hentry with ⟨-, hchanged⟩ | hremoved
          · simp [Record.isChanged_of_unchanged hchanged] at hmarked
          · simp [hremoved, Lifecycle.isLive] at hlive
      | staged number row columns _ _ hnumber hrow hholds hstored =>
          exact ⟨id, number, row, columns, hkey, hnumber, hrow, hholds, hstored⟩

end

end Scope

/-! ## Courses -/

namespace Course

variable {registry : Registry} {terms : Terms} {course : Course} {handle : Handle} {column : Column}
  {referent : Referent}

/-- Deeds that are done one after the other leave a reference alone. -/
def SparesReference (handle : Handle) (name : String) : Course → List Deed → Prop
  | _, [] => True
  | course, deed :: rest =>
      (∀ scope, course.db.scope = some scope → scope.SparesReference handle name deed) ∧
        (course.step (.deed deed)).SparesReference handle name rest

/-- A column of references in the open scope holds what was assigned to it. -/
def Assigned (course : Course) (handle : Handle) (column : Column) (referent : Referent) : Prop :=
  ∃ scope, course.db.scope = some scope ∧ scope.Assigned handle column referent

theorem sparesReference_iff {name : String} {deeds : List Deed} :
    course.SparesReference handle name deeds ↔ course.Throughout (fun course deed =>
      ∀ scope, course.db.scope = some scope → scope.SparesReference handle name deed) deeds := by
  induction deeds generalizing course with
  | nil => exact Iff.rfl
  | cons deed rest ih => exact and_congr_right fun _ => ih

/-- What a scope keeps in deeds that leave a reference alone is kept by any sequence of them. -/
theorem Intact.keeps_spared (h : course.Intact registry terms) (horderly : course.Orderly)
    (hregistry : registry.Consistent)
    (hcount : ∀ model ∈ registry.models, model.columns.length < 4294967296) {name : String}
    (kept : Scope → Prop)
    (hsupply : ∀ (scope : Scope) (supply : Supply), kept scope → kept { scope with supply })
    (hperform : ∀ {env : Environment} {deleted : List (String × UInt64)} {scope : Scope} {deed : Deed},
      env.registry = registry → scope.Intact env terms deleted → scope.Orderly →
      (∀ record, deed = .add record → record.model ∈ registry.models) →
      scope.SparesReference handle name deed → kept scope →
        (deed.perform env).Ends scope (fun _ => kept) kept)
    {deeds : List Deed} (hmeets : course.Meets terms (deeds.map .deed))
    (hlawful : ∀ deed ∈ deeds, Event.Lawful registry (.deed deed))
    (hspared : course.SparesReference handle name deeds) {scope : Scope}
    (hscope : course.db.scope = some scope) (hkept : kept scope) :
    ∃ last, ((deeds.map Event.deed).foldl Course.step course).db.scope = some last ∧ kept last := by
  refine (h.keeps_deeds hregistry hcount
    (fun course => course.Orderly ∧ ∃ scope, course.db.scope = some scope ∧ kept scope) _ ?_ hmeets
    ((throughout_of_forall (fun deed hdeed _ => hlawful deed hdeed) course).and
      (sparesReference_iff.1 hspared)) ⟨horderly, scope, hscope, hkept⟩).2
  rintro course deed hintact hallows ⟨hlawful, hspared⟩ ⟨horderly, scope, hscope, hkept⟩
  have hsame := hintact.registry_eq
  obtain ⟨after, hstep, hafter⟩ := step_deed hscope (hperform hsame (hintact.opened scope hscope)
    ((horderly scope hscope).of_same rfl rfl)
    (fun record hadd => hsame ▸ hallows.registered record (congrArg Event.deed hadd)) (hspared scope hscope)
    (hsupply scope course.db.supply hkept))
  exact ⟨horderly.step hintact hregistry hallows hlawful, after, by rw [hstep]; rfl, hafter⟩

/-- A reference is kept by any sequence of deeds that leave it alone. -/
theorem Assigned.foldl_step (h : course.Assigned handle column referent)
    (hintact : course.Intact registry terms) (horderly : course.Orderly) (hregistry : registry.Consistent)
    (hcount : ∀ model ∈ registry.models, model.columns.length < 4294967296) (hgrounded : terms.grounded)
    {deeds : List Deed} (hmeets : course.Meets terms (deeds.map .deed))
    (hlawful : ∀ deed ∈ deeds, Event.Lawful registry (.deed deed))
    (hspared : course.SparesReference handle column.name deeds) :
    ((deeds.map Event.deed).foldl Course.step course).Assigned handle column referent := by
  obtain ⟨scope, hscope, hassigned⟩ := h
  refine hintact.keeps_spared horderly hregistry hcount (fun scope => scope.Assigned handle column referent)
    (fun _ _ hassigned => hassigned.transfer (.of_same rfl rfl rfl)) ?_ hmeets hlawful hspared hscope hassigned
  rintro env deleted scope deed rfl hopened horderly hregistered hspared hassigned
  exact Scope.perform_assigned hregistry hcount hgrounded hopened horderly hregistered hspared hassigned

end Course

/-- The reference that was assigned last is staged.  Take a database to which nothing has happened and any
course of events that mark no keys, in which the records that come from outside are of its models, and have
their rows when they have a key.  Let an act assign a reference: a record, pending or stored, or a key to the
column of the relationship.  Then let anything be done that leaves the reference alone.  If a flush succeeds now
and the record is to stay, its staged row holds in the column the key that was assigned, or the key of the
record that was assigned, which has one now.  But a key that was assigned while the column had a link is lost,
and the row holds the key of the record that the link leads to. -/
theorem last_reference_is_staged {db : Database} (hfresh : db.Fresh) {terms : Terms}
    (hgrounded : terms.grounded) {events : List Event} {act : Act} {deeds : List Deed}
    (hmeets : Course.Meets terms { db } (events ++ .deed (.act act) :: deeds.map .deed))
    (hlawful : ∀ event ∈ events ++ .deed (.act act) :: deeds.map .deed, event.Lawful db.registry)
    {scope : Scope} {handle : Handle} {name : String} {referent : Referent}
    (hreference : scope.IsReference handle name) (hassigns : scope.Assigns handle name act referent) :
    let before := events.foldl Course.step { db }
    let assigned := before.step (.deed (.act act))
    let course := (deeds.map Event.deed).foldl Course.step assigned
    before.db.scope = some scope → (before.db.run fun env => act.perform env).1 = .ok () →
      assigned.SparesReference handle name deeds →
        ∀ after, course.db.run Scope.flush = (.ok (), after) →
          ∃ last entry, after.scope = some last ∧ last.entries[handle]? = some entry ∧
            (entry.state.isLive = true → ∃ id number row columns,
              last.referentKey? referent = some id ∧ entry.record.id = some number ∧
              last.staged.find? (entry.record.model.tableName, number.toUInt64) = some (some row) ∧
              row.Holds columns ∧ storedColumn columns name = .integer id) := by
  intro before assigned course hscope hdone hspared after hflush
  have hregistry := hfresh.consistent
  obtain ⟨hbefore, hallows, hlater⟩ := Course.meets_append.1 hmeets
  obtain ⟨hearlier, hnow, hrest⟩ : (∀ event ∈ events, event.Lawful db.registry) ∧
      Event.Lawful db.registry (.deed (.act act)) ∧
      ∀ deed ∈ deeds, Event.Lawful db.registry (.deed deed) := by
    simpa [or_imp, forall_and] using hlawful
  have hintact : before.Intact db.registry terms := hfresh.intact hbefore
  have horderly : before.Orderly := hfresh.orderly hbefore hearlier
  -- The act was done in the open scope.
  obtain ⟨started, made, hstarted, hrun, hmade⟩ := Database.run_eq_ok.1 (Prod.ext hdone rfl)
  obtain rfl := Option.some.inj (hscope.symm.trans hstarted)
  obtain ⟨entry, hentry, relationship, hmem, hname⟩ := hreference
  have hrooted := (hintact.opened scope hscope).rooted
  obtain ⟨_, -, hcompiled⟩ := (hintact.registry_consistent hregistry).mem_compiled
    (hrooted.registered handle _ (Scope.standing_of_entry hentry))
  obtain ⟨column, hcolumn, hsame⟩ := hcompiled.exists_referenceColumn hmem
  obtain rfl : column.name = name := hsame.trans hname
  have hassigned : assigned.Assigned handle column referent := by
    refine ⟨made, congrArg Database.scope hmade, ?_⟩
    exact (Scope.Assigns.ends (hintact.registry_consistent hregistry) hrooted hentry hcolumn
      (hassigns.of_same rfl rfl)).of_ok hrun
  have hintact' := hintact.step hregistry hfresh.counted hallows
  have horderly' := horderly.step hintact hregistry hallows hnow
  obtain ⟨kept, hkept, hheld⟩ := hassigned.foldl_step hintact' horderly' hregistry hfresh.counted hgrounded
    hlater hrest hspared
  have hfinal : course.Intact db.registry terms :=
    hintact'.foldl_step hregistry hfresh.counted hlater
  have hlast : course.Orderly := horderly'.foldl_step hintact' hregistry hfresh.counted hlater
    (by simpa using hrest)
  obtain ⟨opened, last, hopened, hflushed, rfl⟩ := Database.run_eq_ok.1 hflush
  obtain rfl := Option.some.inj (hkept.symm.trans hopened)
  obtain ⟨found, hfound, hstaged⟩ := (Scope.flush_stages (hfinal.registry_consistent hregistry)
    (hfinal.counted hfresh.counted) hgrounded (hfinal.opened kept hkept)
    ((hlast kept hkept).of_same rfl rfl) (hheld.transfer (.of_same rfl rfl rfl))).of_ok hflushed
  exact ⟨last, found, rfl, hfound, hstaged⟩

/-- There is a stored link, but a holder refers to a new one. -/
def holderAwaitsLink : List Event := [
  .createSchema, .openScope, .deed (.act (.create "Link")), .deed (.act .flush),
  .deed (.act (.create "Holder")), .deed (.act (.create "Link")), .deed (.act (.setReference 1 "link" 2))]

/-- The holder is to refer to the stored link after all, and the new one is not needed any more. -/
theorem last_reference_is_staged_of_holder :
    let before := holderAwaitsLink.foldl Course.step { db := linksAndHolders }
    let assigned := before.step (.deed (.act (.setReference 1 "link" 0)))
    let course := assigned.step (.deed (.act (.delete 2)))
    ∃ after last entry, course.db.run Scope.flush = (.ok (), after) ∧ after.scope = some last ∧
      last.entries[1]? = some entry ∧ ∃ row columns,
        last.staged.find? ("holders", 1) = some (some row) ∧ row.Holds columns ∧
        storedColumn columns "_link_id" = .integer 1 := by
  let terms : Terms := { grounded := True, undeleted := False }
  let events : List Event := holderAwaitsLink ++
    .deed (.act (.setReference 1 "link" 0)) :: [Deed.act (.delete 2)].map .deed
  have hmeets : Course.Meets terms { db := linksAndHolders } events :=
    Course.meets_of_brings_nothing (by simp [events, holderAwaitsLink]) False.elim _
  have hlawful : ∀ event ∈ events, event.Lawful linksAndHolders.registry := by
    simp [events, holderAwaitsLink, Event.Lawful]
  obtain ⟨⟨scope, hscope, holder, hholder, relationship, hrelationship, hmem, hname⟩, hdone, hflushed, last,
      hlast, link, hlink, hfirst, entry, hentry, hlive, hnumber, htable⟩ :
      let before := holderAwaitsLink.foldl Course.step { db := linksAndHolders }
      let assigned := before.step (.deed (.act (.setReference 1 "link" 0)))
      let flushed := (assigned.step (.deed (.act (.delete 2)))).db.run Scope.flush
      (∃ scope ∈ before.db.scope, ∃ holder ∈ scope.entries[1]?,
        ∃ relationship ∈ (Scope.relationshipOf holder.record "link").toOption,
          relationship ∈ holder.record.model.relationships ∧ relationship.column = "_link_id") ∧
        (before.db.run fun env => (Act.setReference 1 "link" 0).perform env).1 = .ok () ∧
        flushed.1 = .ok () ∧ ∃ last ∈ flushed.2.scope, ∃ link ∈ last.entries[0]?, link.record.id = some 1 ∧
          ∃ entry ∈ last.entries[1]?, entry.state.isLive = true ∧ entry.record.id = some 1 ∧
            entry.record.model.tableName = "holders" := by
    decide +kernel
  have hmain := @last_reference_is_staged _ linksAndHolders_fresh terms trivial holderAwaitsLink
    (.setReference 1 "link" 0) [.act (.delete 2)] hmeets hlawful scope 1 "_link_id" (.record 0)
    ⟨holder, hholder, relationship, hmem, hname⟩
    (.reference 0 hholder (toOption_eq_some.1 hrelationship) hname) hscope hdone ⟨fun _ _ => trivial, trivial⟩
  -- From here on the course is not computed any more.
  generalize holderAwaitsLink.foldl Course.step { db := linksAndHolders } = before at *
  obtain ⟨kept, found, hkept, hfound, hstaged⟩ := hmain _ (Prod.ext hflushed rfl)
  obtain rfl := Option.some.inj (hlast.symm.trans hkept)
  obtain rfl := Option.some.inj ((Option.mem_def.1 hentry).symm.trans hfound)
  obtain ⟨id, number, row, columns, hkey, hown, hrow, hholds, hstored⟩ := hstaged hlive
  obtain rfl := Option.some.inj (hnumber.symm.trans hown)
  have hone : last.referentKey? (.record 0) = some 1 := Option.bind_eq_some_iff.2 ⟨link, hlink, hfirst⟩
  obtain rfl := Option.some.inj (hone.symm.trans hkey)
  rw [htable] at hrow
  exact ⟨_, last, entry, Prod.ext hflushed rfl, hlast, hentry, row, columns, hrow, hholds, hstored⟩

/-- The key of the stored link is assigned to the column last, but the holder refers to the new link. -/
theorem key_is_outdone_by_link :
    let before := holderAwaitsLink.foldl Course.step { db := linksAndHolders }
    let course := before.step (.deed (.act (.assign 1 "_link_id" (.integer 1))))
    let flushed := course.db.run Scope.flush
    (before.db.run fun env => (Act.assign 1 "_link_id" (.integer 1)).perform env).1 = .ok () ∧
      flushed.1 = .ok () ∧ ∃ last ∈ flushed.2.scope,
        ∃ row ∈ (last.staged.find? ("holders", 1)).join, ∃ columns ∈ (decodeRow row.data).toOption,
          (storedColumn columns "_link_id").asInteger? = some 2 := by
  decide +kernel

end RecordStore
