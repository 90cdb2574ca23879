import RecordStore.Proofs.Integrity.FailedFlushes
import RecordStore.Proofs.Scope.Designating

/-!
# References after failed flushes

A flush takes all links out of a scope before it fills the first one.  When it fails at a link that leads to
a record that goes away, the links behind it are neither kept nor filled (`Scope.LosesLink`), and what their
relationships designated is forgotten (`failed_flush_loses_reference`).  Apart from these, every relationship
designates what it designated before, wherever a flush fails (`failed_flush_keeps_references`).
-/

namespace RecordStore

namespace Scope

variable {env : Environment} {terms : Terms} {deleted : List (String × UInt64)}
  {start before after shown kept : Scope} {handle target : Handle} {field name : String} {id : Int64}
  {result : Option Handle}

/-- The relationship of a record has a link, and some link up to it leads to a record that goes away. -/
def LosesLink (scope : Scope) (handle : Handle) (field : String) : Prop :=
  ∃ entry relationship target, scope.entries[handle]? = some entry ∧
    relationshipOf entry.record field = .ok relationship ∧
    scope.links.find? (handle, relationship.column) = some target ∧
    ∃ key gone other, scope.links.find? key = some gone ∧
      KeyOrder.lt (handle, relationship.column) key = false ∧
      scope.entries[gone]? = some other ∧ other.state.isLive = false

theorem Orderly.exists_gone_of_not_fillable (h : start.Orderly) {key : Handle × String}
    (hnot : ¬start.Fillable key) :
    ∃ other gone entry, start.links.find? other = some gone ∧ KeyOrder.lt key other = false ∧
      start.entries[gone]? = some entry ∧ entry.state.isLive = false := by
  unfold Fillable at hnot
  push Not at hnot
  obtain ⟨⟨place, column⟩, gone, hlink, hlt, hgone⟩ := hnot
  obtain ⟨_, entry, -, hentry, -⟩ := h.links place column gone hlink
  exact ⟨_, gone, entry, hlink, hlt, hentry, Bool.eq_false_iff.2 (hgone entry hentry)⟩

/-- A record that was there already stands for what it stood for. -/
theorem Loads.standsFor_iff (h : before.Loads after) (hlt : handle < before.entries.length) :
    after.StandsFor handle name id ↔ before.StandsFor handle name id := by
  have hsame := List.getElem?_eq_getElem hlt
  unfold StandsFor
  rw [hsame, h.getElem? hsame]

/-- A link that is not lost is kept or filled. -/
theorem Orderly.kept_or_filled (hstart : start.Orderly) {entry : Entry} {relationship : Relationship}
    (hentry : start.entries[handle]? = some entry)
    (hrelationship : relationshipOf entry.record field = .ok relationship)
    (hlinks : start.SavesLinks after)
    (hlost : ¬(after.links ≠ start.links ∧ start.LosesLink handle field)) :
    after.links = start.links ∨ ∀ target,
      start.links.find? (handle, relationship.column) = some target →
        after.LinkFilled (handle, relationship.column) target := by
  by_cases hsame : after.links = start.links
  · exact Or.inl hsame
  · refine Or.inr ?_
    intro target hlink
    refine hlinks.resolve_left hsame _ target hlink ?_
    by_contra hfillable
    obtain ⟨key, gone, other, hgone, hlt, hother, hdead⟩ := hstart.exists_gone_of_not_fillable hfillable
    exact hlost ⟨hsame, entry, relationship, target, hentry, hrelationship, hlink, key, gone, other, hgone,
      hlt, hother, hdead⟩

section

variable (hregistry : env.registry.Consistent)
  (hcount : ∀ model ∈ env.registry.models, model.columns.length < 4294967296)
  (hgrounded : terms.grounded) (h : start.Intact env terms deleted) (hstart : start.Orderly)

include hregistry hcount hgrounded h hstart

omit hgrounded in
/-- What a flush leaves when it fails. -/
theorem flush_fails :
    (flush env).Ends start (fun _ _ => True) (fun after => after.Intact env terms deleted ∧
      start.Underway after ∧ start.SavesLinks after) := by
  have hreaches : (flush env).Ends start (fun _ => start.Reaches env terms) (start.Reaches env terms) :=
    flush_reaches h.rooted start Relation.ReflTransGen.refl
  refine ((hreaches.and (flush_underway hregistry h.rooted hstart)).and
    (flush_fills hregistry h.rooted hstart)).mono (fun _ _ _ => trivial) ?_
  rintro after ⟨⟨hafter, hunderway⟩, hlinks⟩
  exact ⟨h.reaches hregistry hcount hafter, hunderway, hlinks⟩

section

variable (hafter : after.Intact env terms deleted) (hunderway : start.Underway after)
  (hlinks : start.SavesLinks after)
  (hlost : ¬(after.links ≠ start.links ∧ start.LosesLink handle field))

include hafter hunderway hlinks hlost

/-- What a relationship designated is returned again, and is the record of the same row. -/
theorem related_again (hrun : (related env handle field).run start = .ok result shown) :
    ∃ kept, (related env handle field).run after = .ok result kept ∧ ∀ target ∈ result,
      ∀ name id, shown.StandsFor target name id → kept.StandsFor target name id := by
  obtain ⟨hshown, entry, relationship, hentry, hrelationship, hrefers, hidentity⟩ :=
    (related_refers hregistry hcount h.rows handle field).of_ok hrun
  have hmem := relationshipOf_eq_ok hrelationship
  obtain ⟨record, hrecord, hmodel, hrefers'⟩ := hrefers.underway hregistry h.rooted (h.keyed hgrounded)
    hstart hafter.rooted (hafter.keyed hgrounded) hunderway hentry hmem
    (hstart.kept_or_filled hentry hrelationship hlinks hlost)
  have hrelationship' := relationshipOf_of_model hmodel hrelationship
  obtain ⟨_, kept, hagain, rfl⟩ :=
    (related_of_refers hregistry hcount hafter.rows hrecord hrelationship' hrefers').run_eq
  refine ⟨kept, hagain, ?_⟩
  -- The handle that is returned may be that of a row that both look-ups had to load.
  rintro target rfl name id hstands
  obtain ⟨hloads, entry', relationship', hentry', hrelationship'', -, hidentity'⟩ :=
    (related_refers hregistry hcount hafter.rows handle field).of_ok hagain
  obtain rfl := Option.some.inj (hrecord.symm.trans hentry')
  obtain rfl := Except.ok.inj (hrelationship'.symm.trans hrelationship'')
  by_cases hlt : target < start.entries.length
  · -- A record of the scope is what it was.
    have hlt' : target < after.entries.length := hunderway.length ▸ hlt
    exact (hloads.standsFor_iff hlt').2 (((hshown.standsFor_iff hlt).1 hstands).underway hunderway)
  · -- A row that was loaded has the key that is in the column, before the flush and after it.
    cases hrefers with
    | linked _ hlink =>
        obtain ⟨_, _, -, htarget, -⟩ := hstart.links _ _ _ hlink
        exact absurd (List.getElem?_eq_some_iff.1 htarget).1 hlt
    | keyed model key _ hlink hheld =>
        obtain ⟨_, hrecord', -, hvalue⟩ := hunderway.reference_kept hregistry h.rooted hentry hmem hlink
        cases Option.some.inj (hrecord.symm.trans hrecord')
        have hbefore := (related_rooted hregistry h.rooted hrun).standsFor (hidentity key hlink hheld)
        have hlast := (related_rooted hregistry hafter.rooted hagain).standsFor
          (hidentity' key (hunderway.unlinked hlink) (hvalue.trans hheld))
        obtain ⟨rfl, rfl⟩ := hbefore.unique hstands
        exact hlast

/-- What is returned for a relationship was returned before, unless it is a record that had no key. -/
theorem related_before (hrun : (related env handle field).run after = .ok result kept) :
    (∃ shown, (related env handle field).run start = .ok result shown) ∨ ∃ target ∈ result,
      ∃ entry, start.entries[target]? = some entry ∧ entry.record.id = none := by
  obtain ⟨-, new, relationship, hnew, hrelationship', hrefers, -⟩ :=
    (related_refers hregistry hcount hafter.rows handle field).of_ok hrun
  obtain ⟨entry, hentry, -⟩ := hunderway.entry_back hnew
  obtain ⟨record, hrecord, hmodel, -⟩ := hunderway.entries handle entry hentry
  obtain rfl := Option.some.inj (hnew.symm.trans hrecord)
  have hrelationship := relationshipOf_of_model hmodel.symm hrelationship'
  refine (hrefers.of_underway hregistry h.rooted (h.keyed hgrounded) hstart hafter.rooted
    (hafter.keyed hgrounded) hunderway hentry (relationshipOf_eq_ok hrelationship)
    (hstart.kept_or_filled hentry hrelationship hlinks hlost) hrecord).imp_left ?_
  intro hbefore
  obtain ⟨_, shown, hshown, rfl⟩ :=
    (related_of_refers hregistry hcount h.rows hentry hrelationship hbefore).run_eq
  exact ⟨shown, hshown⟩

end

end

end Scope

/-- A flush that fails keeps references.  Take a database to which nothing has happened and any course of
events that mark no keys, in which the records that come from outside are of its models, and have their rows
when they have a key.  If the open scope cannot be flushed, wherever the flush stops, then every relationship
of every record that designated a record, or nothing, designates the same afterwards: the same handle is
returned, and it is the record of the same row.  What it designates afterwards it also designated before, but
for records that were new.  Excepted are relationships whose links were forgotten, because one that does not
come behind theirs leads to a record that goes away. -/
theorem failed_flush_keeps_references {db : Database} (hfresh : db.Fresh) {terms : Terms}
    (hgrounded : terms.grounded) {events : List Event} (hmeets : Course.Meets terms { db } events)
    (hlawful : ∀ event ∈ events, event.Lawful db.registry) :
    let course := events.foldl Course.step { db }
    ∀ scope error after, course.db.scope = some scope →
      course.db.run Scope.flush = (.error error, after) → ∃ left, after.scope = some left ∧
        ∀ handle field, (left.links ≠ scope.links ∧ scope.LosesLink handle field) ∨
          (∀ result found, course.db.run (Scope.related · handle field) = (.ok result, found) →
            ∃ last shown kept, after.run (Scope.related · handle field) = (.ok result, last) ∧
              found.scope = some shown ∧ last.scope = some kept ∧ ∀ target ∈ result,
                ∀ name id, shown.StandsFor target name id → kept.StandsFor target name id) ∧
          ∀ result, (after.run (Scope.related · handle field)).1 = .ok result →
            (course.db.run (Scope.related · handle field)).1 = .ok result ∨ ∃ target ∈ result,
              ∃ entry, scope.entries[target]? = some entry ∧ entry.record.id = none := by
  intro course scope error after hscope hflush
  have hintact : course.Intact db.registry terms := hfresh.intact hmeets
  have hregistry := hintact.registry_consistent hfresh.consistent
  have hcount := hintact.counted hfresh.counted
  have hopened := hintact.opened scope hscope
  have hstart : ({ scope with supply := course.db.supply } : Scope).Orderly :=
    (hfresh.orderly hmeets hlawful scope hscope).of_same rfl rfl
  rcases Database.run_cases hscope Scope.flush
    (Scope.flush_fails hregistry hcount hopened hstart) with
    ⟨_, _, hdone, -⟩ | ⟨_, left, hfailed, hleft, hunderway, hlinks⟩
  · cases hflush.symm.trans hdone
  · cases hflush.symm.trans hfailed
    refine ⟨left, rfl, ?_⟩
    intro handle field
    by_cases hlost : left.links ≠ scope.links ∧ scope.LosesLink handle field
    · exact Or.inl hlost
    · refine Or.inr ⟨?_, ?_⟩
      · intro result found hfound
        obtain ⟨_, shown, hscope', hrun, rfl⟩ := Database.run_eq_ok.1 hfound
        obtain rfl := Option.some.inj (hscope.symm.trans hscope')
        obtain ⟨kept, hagain, hstands⟩ :=
          Scope.related_again hregistry hcount hgrounded hopened hstart hleft hunderway hlinks hlost hrun
        exact ⟨_, shown, kept, Database.run_of_ok rfl hagain, rfl, rfl, hstands⟩
      · intro result hafter
        obtain ⟨_, kept, hopen, hrun, -⟩ := Database.run_eq_ok.1 (Prod.ext hafter rfl)
        cases hopen
        refine (Scope.related_before hregistry hcount hgrounded hopened hstart hleft hunderway hlinks hlost
          hrun).imp_left ?_
        rintro ⟨shown, hshown⟩
        rw [Database.run_of_ok hscope hshown]

/-- The flush fails at the second holder; the link of the first one was filled before. -/
theorem failed_flush_keeps_references_of_holder :
    let course := oneHolderLacksLink.foldl Course.step { db := linksAndHolders }
    ∃ error after, course.db.run Scope.flush = (.error error, after) ∧
      (course.db.run (Scope.related · 1 "link")).1 = .ok (some 0) ∧
      (after.run (Scope.related · 1 "link")).1 = .ok (some 0) := by
  let terms : Terms := { grounded := True, undeleted := True }
  have hmeets : Course.Meets terms { db := linksAndHolders } oneHolderLacksLink :=
    Course.meets_of_brings_nothing (by simp [oneHolderLacksLink]) (by simp [oneHolderLacksLink]) _
  have hlawful : ∀ event ∈ oneHolderLacksLink, event.Lawful linksAndHolders.registry := by
    simp [oneHolderLacksLink, Event.Lawful]
  obtain ⟨hfails, hbefore, scope, hscope, hlive⟩ :
      let course := oneHolderLacksLink.foldl Course.step { db := linksAndHolders }
      (course.db.run Scope.flush).1.toOption = none ∧
        (course.db.run (Scope.related · 1 "link")).1 = .ok (some 0) ∧
        ∃ scope ∈ course.db.scope, ∀ entry ∈ scope.entries, entry.state.isLive = true := by
    decide +kernel
  have hmain := failed_flush_keeps_references linksAndHolders_fresh trivial hmeets hlawful
  -- From here on the course is not computed any more.
  generalize oneHolderLacksLink.foldl Course.step { db := linksAndHolders } = course at *
  obtain ⟨error, herror⟩ := toOption_eq_none.1 hfails
  refine ⟨error, _, Prod.ext herror rfl, hbefore, ?_⟩
  obtain ⟨left, -, hkept⟩ := hmain scope error _ hscope (Prod.ext herror rfl)
  rcases hkept 1 "link" with ⟨-, _, _, _, -, -, -, _, _, other, -, -, hother, hgone⟩ | ⟨hagain, -⟩
  · -- No record goes away.
    simp [hlive other (List.mem_of_getElem? hother)] at hgone
  · obtain ⟨last, _, _, hrelated, -⟩ := hagain (some 0) _ (Prod.ext hbefore rfl)
    exact congrArg Prod.fst hrelated

/-- Two holders refer to new links, and the link of the first one is withdrawn. -/
def firstLinkIsWithdrawn : List Event := [
  .createSchema, .openScope, .deed (.act (.create "Holder")), .deed (.act (.create "Link")),
  .deed (.act (.setReference 0 "link" 1)), .deed (.act (.create "Holder")),
  .deed (.act (.create "Link")), .deed (.act (.setReference 2 "link" 3)), .deed (.act (.delete 1))]

/-- The flush fails at the link of the first holder, and the second holder has lost its own. -/
theorem failed_flush_loses_reference :
    let course := firstLinkIsWithdrawn.foldl Course.step { db := linksAndHolders }
    let flushed := course.db.run Scope.flush
    flushed.1.toOption = none ∧ (course.db.run (Scope.related · 2 "link")).1 = .ok (some 3) ∧
      (flushed.2.run (Scope.related · 2 "link")).1 = .ok none := by
  decide +kernel

end RecordStore
