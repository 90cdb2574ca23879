import RecordStore.Proofs.Integrity.Collections
import RecordStore.Proofs.Integrity.GoneTargets
import RecordStore.Proofs.Integrity.ShownRows
import RecordStore.Proofs.Scope.Lifecycles

/-!
# Relationships and collections are inverse

A collection is found in the rows, a relationship is followed from what a record holds.  After the flush that
comes with a collection, records show their rows and nothing is linked, so both say the same: a record is in a
collection exactly if one of its relationships designates the owner (`collections_invert_relationships`).  This
needs the rows to have numbers that were given: otherwise a new record may get the key of one that was found,
and what designated the one designates the other (`number_given_again_diverts_relationship`).
-/

namespace RecordStore

/-- A relationship is known by its name, up to the collection that it adds to. -/
theorem Model.Compiled.relationshipOf_name {find? : String → Option Model} {record : Record}
    (h : record.model.Compiled find?) {relationship : Relationship}
    (hmem : relationship ∈ record.model.relationships) :
    ∃ found, Scope.relationshipOf record relationship.name = .ok found ∧
      found ∈ record.model.relationships ∧ found.column = relationship.column ∧
      found.target = relationship.target := by
  have hcolumn : ∀ other ∈ record.model.relationships, other.column = referenceColumn other.name := by
    intro other hother
    obtain ⟨names, field, target, known, -, -, -, hpart⟩ := h.relationship_part hother
    cases hpart
    rfl
  obtain ⟨found, hfound⟩ : ∃ found, record.model.relationship? relationship.name = some found :=
    Option.isSome_iff_exists.1 (List.find?_isSome.2 ⟨relationship, hmem, beq_self_eq_true _⟩)
  have hown : found ∈ record.model.relationships := List.mem_of_find?_eq_some hfound
  have hname : found.name = relationship.name := by simpa using List.find?_some hfound
  have hsame : found.column = relationship.column := by
    rw [hcolumn found hown, hcolumn relationship hmem, hname]
  exact ⟨found, by simp [Scope.relationshipOf, hfound], hown, hsame, h.target_eq_of_column hmem hown hsame⟩

/-- A key is mirrored only by itself where integers are kept. -/
theorem Column.mirrors_integer_iff {column : Column} (hkind : column.kind = .integer) {value loaded : Value}
    (h : column.Mirrors value loaded) {key : Int64} : value = .integer key ↔ loaded = .integer key := by
  rcases h with halike | hwidens
  · constructor
    · rintro rfl
      cases halike
      rfl
    · rintro rfl
      cases halike
      rfl
  · rw [hkind] at hwidens
    cases hwidens

namespace Scope

variable {env : Environment} {deleted : List (String × UInt64)} {scope : Scope} {handle target : Handle}
  {entry owner : Entry} {relationship : Relationship} {name : String} {handles : List Handle}

section

variable (hregistry : env.registry.Consistent)
  (hcount : ∀ model ∈ env.registry.models, model.columns.length < 4294967296)
  (h : scope.Aligned env deleted) (hrest : scope.AtRest)
  (hentry : scope.entries[handle]? = some entry) (hlive : entry.state.isLive = true)

include hregistry hcount h hrest hentry hlive

/-- In a column of references a record holds the key that its row holds. -/
theorem Aligned.holds_iff_stored {column : Column} (hcolumn : entry.record.model.ReferenceColumn column)
    {key : Int64} :
    entry.record.values.find? column.name = some (.integer key) ↔
      scope.storedKey? env entry.record column.name = some key := by
  have hmodel := h.anchored.rooted.mem_models hentry
  obtain ⟨_, -, hcompiled⟩ := hregistry.mem_compiled hmodel
  obtain ⟨hkind, hdata⟩ := hcompiled.of_reference hcolumn
  obtain ⟨id, row, content, hid, hrow, hpresents, hshows⟩ :=
    h.showsRow hregistry hcount hrest.settled hentry hlive
  obtain ⟨value, hvalue, hmirrors⟩ := hshows column hcolumn.mem
  have hmirrors := hmirrors fun hprimary => by simp [hdata] at hprimary
  -- What is kept in the column is read as it is.
  obtain ⟨columns, hwrote⟩ := h.anchored.rows.written _ hmodel _ row hrow
  have hholds := hwrote.holds (hcount _ hmodel)
  have hadmits := hwrote.admits_column hcompiled.columns_nodup hcolumn.mem
  have hreadable := hadmits.readable_of_integer hkind
  obtain ⟨stored, hfound, hstored⟩ := hholds.getColumn_eq hreadable
  obtain ⟨-, hcontent⟩ := (hpresents.read column hcolumn.mem _).1
    (hholds.read_eq_ok.2 ⟨hreadable, hadmits.load_eq (by rw [hkind]; rfl)⟩)
  rw [Record.get_eq_ok.1 hvalue, Option.some.injEq, Column.mirrors_integer_iff hkind hmirrors,
    ← hcontent, ← hstored, storedKey?_eq_some]
  constructor
  · intro hkey
    exact ⟨id, row, stored, hid, hrow, hfound, hkey⟩
  · rintro ⟨_, _, _, hid', hrow', hfound', hkey⟩
    obtain rfl := Option.some.inj (hid.symm.trans hid')
    cases hrow.symm.trans hrow'
    cases hfound.symm.trans hfound'
    exact hkey

/-- A relationship designates a record exactly if the row holds its key. -/
theorem Aligned.related_iff (hmem : relationship ∈ entry.record.model.relationships)
    (howner : scope.entries[target]? = some owner) (hstays : owner.state.isLive = true)
    (htarget : relationship.target = owner.record.modelName) :
    (∃ after, (related env handle relationship.name).run scope = .ok (some target) after) ↔
      ∃ key, owner.record.id = some key ∧
        scope.storedKey? env entry.record relationship.column = some key := by
  have hrooted := h.anchored.rooted
  obtain ⟨_, hcompiled⟩ := hrooted.compiled hregistry hentry
  obtain ⟨column, hcolumn, hcolumnName⟩ := hcompiled.exists_referenceColumn hmem
  obtain ⟨found, hfound, -, hsame, hsameTarget⟩ := hcompiled.relationshipOf_name hmem
  have hunlinked : scope.links.find? (handle, found.column) = none := by
    rw [hrest.unlinked]
    rfl
  rw [← hcolumnName]
  constructor
  · rintro ⟨after, hrun⟩
    obtain ⟨-, entry', relationship', hentry', hrelationship', hrefers, -⟩ :=
      (related_refers hregistry hcount h.anchored.rows handle _).of_ok hrun
    obtain rfl := Option.some.inj (hentry.symm.trans hentry')
    obtain rfl := Except.ok.inj (hfound.symm.trans hrelationship')
    cases hrefers with
    | linked _ hlink => cases hunlinked.symm.trans hlink
    | keyed model id _ _ hvalue hmodel hname hfinds =>
        rw [hsame, ← hcolumnName] at hvalue
        refine ⟨id, ?_, (h.holds_iff_stored hregistry hcount hrest hentry hlive hcolumn).1 hvalue⟩
        cases hfinds with
        | held _ _ hidentity =>
            obtain ⟨_, howner', -, hid⟩ := hrooted.standsFor hidentity
            obtain rfl := Option.some.inj (howner.symm.trans howner')
            exact hid
        | loaded =>
            -- The record was there before.
            have hlt := (List.getElem?_eq_some_iff.1 howner).1
            omega
  · rintro ⟨key, hid, hstored⟩
    have hvalue := (h.holds_iff_stored hregistry hcount hrest hentry hlive hcolumn).2 hstored
    rw [hcolumnName, ← hsame] at hvalue
    have hregistered := hrooted.mem_models howner
    have hidentity := ((h.anchored.keyed.records target _ (standing_of_entry howner)).identified key hid).2
    have hrefers : scope.RefersTo env handle entry.record found (some target) :=
      .keyed _ key target hunlinked hvalue hregistered (htarget.symm.trans hsameTarget.symm)
        (.held target owner hidentity howner hstays)
    obtain ⟨_, after, hrun, rfl⟩ :=
      (related_of_refers hregistry hcount h.anchored.rows hentry hfound hrefers).run_eq
    exact ⟨after, hrun⟩

/-- A record is in a collection exactly if one of its relationships to the owner designates the owner. -/
theorem Aligned.mem_gathers_iff (howner : scope.entries[target]? = some owner)
    (hstays : owner.state.isLive = true) (hgathers : scope.Gathers env owner.record name handles)
    (hrelated : entry.record.model.relatedName = name) :
    handle ∈ handles ↔ ∃ relationship ∈ entry.record.model.relationships,
      relationship.target = owner.record.modelName ∧
        ∃ after, (related env handle relationship.name).run scope = .ok (some target) after := by
  have hstanding := standing_of_entry hentry
  have hmodel := h.anchored.rooted.registered handle _ hstanding
  obtain ⟨id, hid⟩ : ∃ id, entry.record.id = some id := by
    obtain ⟨id, _, _, hid, -⟩ := h.showsRow hregistry hcount hrest.settled hentry hlive
    exact ⟨id, hid⟩
  have hfind := ((h.anchored.keyed.records handle _ hstanding).identified id hid).2
  have htimes := hgathers.count_eq hregistry hcount h.anchored.rooted h.anchored.rows hentry hfind
  rw [← List.count_pos_iff, htimes, List.length_pos_iff_exists_mem]
  simp only [mem_memberships hregistry hmodel]
  constructor
  · rintro ⟨_, -, relationship, hmem, htarget, -, hstored⟩
    exact ⟨relationship, hmem, htarget,
      (h.related_iff hregistry hcount hrest hentry hlive hmem howner hstays htarget).2 hstored⟩
  · rintro ⟨relationship, hmem, htarget, hdesignates⟩
    exact ⟨_, hrelated, relationship, hmem, htarget, rfl,
      (h.related_iff hregistry hcount hrest hentry hlive hmem howner hstays htarget).1 hdesignates⟩

omit hrest hentry hlive

/-- What is in a collection is there, and its model adds to the collection. -/
theorem Aligned.of_mem_gathers (hsettled : scope.Settled)
    (hgathers : scope.Gathers env owner.record name handles) (hmem : handle ∈ handles) :
    ∃ entry, scope.entries[handle]? = some entry ∧ entry.state.isLive = true ∧
      entry.record.model.relatedName = name := by
  obtain ⟨entry, hentry, htimes⟩ :=
    hgathers.exists_entry hregistry hcount h.anchored.rooted h.anchored.rows hmem
  have hstanding := standing_of_entry hentry
  obtain ⟨reference, hreference⟩ := List.length_pos_iff_exists_mem.1 (htimes ▸ List.count_pos_iff.2 hmem)
  obtain ⟨hrelated, _, -, -, -, key, -, hstored⟩ :=
    (mem_memberships hregistry (h.anchored.rooted.registered handle _ hstanding)).1 hreference
  refine ⟨entry, hentry, ?_, hrelated⟩
  rcases hsettled handle entry hentry with ⟨hstate, -⟩ | hstate
  · rw [hstate]
    rfl
  · -- A record that went away has no row.
    obtain ⟨id, row, _, hid, hrow, -⟩ := storedKey?_eq_some.1 hstored
    exact absurd hrow ((h.anchored.keyed.records handle _ hstanding).absent (Or.inr hstate) id row hid)

end

end Scope

/-- A relationship is read in the scope that is open after the collection. -/
theorem Course.Aligned.backReference {registry : Registry} {course : Course} (hregistry : registry.Consistent)
    (hcount : ∀ model ∈ registry.models, model.columns.length < 4294967296)
    (hdefaults : registry.OrderedDefaults) (h : course.Aligned) (hsame : course.db.registry = registry)
    {before : Scope} (hscope : course.db.scope = some before) {target : Handle} (hstays : before.Stays target)
    {name : String} {handles : List Handle} {after : Database}
    (hrun : course.db.run (Scope.backReference · target name) = (.ok handles, after)) :
    ∃ last owner, after = course.db.resume last ∧ last.Aligned course.db.environment course.deleted ∧
      last.AtRest ∧ last.entries[target]? = some owner ∧ owner.state.isLive = true ∧
      last.Gathers course.db.environment owner.record name handles := by
  subst hsame
  obtain ⟨scope, last, hopen, hback, rfl⟩ := Database.run_eq_ok.1 hrun
  obtain rfl := Option.some.inj (hscope.symm.trans hopen)
  have haligned := h before hscope
  have hlook : Scope.Lookable course.db.environment (Scope.Aligned course.db.environment course.deleted) :=
    Scope.lookable_aligned hregistry hcount hdefaults course.deleted
  have hafter := (hlook.keeps_backReference hregistry target name _ haligned).of_ok hback
  obtain ⟨flushed, owner, hflush, hloads, howner, hgathers⟩ := (Scope.backReference_gathers hregistry hcount
    haligned.anchored.rooted (fun _ hflush => ((hlook.flush _ haligned).of_ok hflush).anchored.rows)
    target name).of_ok hback
  refine ⟨last, owner, rfl, hafter, hloads.atRest ((Scope.flush_rests _ _).of_ok hflush), howner, ?_, hgathers⟩
  -- A record that is to stay is stored by the flush.
  obtain ⟨entry, hentry, hlive⟩ := hstays
  have hstate := (Scope.flush_states _ _).of_ok hflush target
  have hbefore : ({ before with supply := course.db.supply } : Scope).stateOf target = some entry.state :=
    Scope.stateOf_eq_some.2 ⟨entry, hentry, rfl⟩
  rw [hbefore, Option.map_some] at hstate
  obtain ⟨stored, hstored, hstate⟩ := Scope.stateOf_eq_some.1 hstate
  obtain rfl := Option.some.inj (howner.symm.trans (hloads.getElem? hstored))
  rw [hstate]
  cases hcase : entry.state with
  | pending | persistent => rfl
  | deleted | removed => simp [hcase, Lifecycle.isLive] at hlive

/-- Relationships and collections are inverse.  Take a database to which nothing has happened and any course of
events after which no scope is open and the rows have numbers that were given.  Open a scope, and do any tasks
in it.  When a collection of a record that is to stay is returned, all records in it are there, and their models
add to the collection.  And a record that is there, of a model that adds to collections of this name, is in the
collection exactly if one of its relationships to the model of the owner designates the owner when it is asked
for then. -/
theorem collections_invert_relationships {db : Database} (hfresh : db.Fresh)
    (hdefaults : db.registry.OrderedDefaults) {terms : Terms} {events : List Event}
    (hmeets : Course.Meets terms { db } events)
    (hclosed : (events.foldl Course.step { db }).db.scope = none)
    (hnumbered : (events.foldl Course.step { db }).db.Numbered) {tasks : List Task}
    (hordered : ∀ task ∈ tasks, task.Ordered) {before : Scope} {target : Handle}
    (hstays : before.Stays target) :
    let course := ((events.foldl Course.step { db }).step .openScope).work tasks
    course.db.scope = some before → ∀ name handles after,
      course.db.run (Scope.backReference · target name) = (.ok handles, after) →
      ∃ scope owner, after.scope = some scope ∧ scope.entries[target]? = some owner ∧
        (∀ handle ∈ handles, ∃ entry, scope.entries[handle]? = some entry ∧ entry.state.isLive = true ∧
          entry.record.model.relatedName = name) ∧
        ∀ (handle : Handle) entry, scope.entries[handle]? = some entry → entry.state.isLive = true →
          entry.record.model.relatedName = name →
            (handle ∈ handles ↔ ∃ relationship ∈ entry.record.model.relationships,
              relationship.target = owner.record.modelName ∧
                (after.run (Scope.related · handle relationship.name)).1 = .ok (some target)) := by
  intro course hscope name handles after hrun
  obtain ⟨haligned, hsame⟩ := hfresh.aligned_work hdefaults hmeets hclosed hnumbered hordered
  obtain ⟨last, owner, rfl, hafter, hrest, howner, hlive, hgathers⟩ := haligned.backReference
    hfresh.consistent hfresh.counted hdefaults hsame hscope hstays hrun
  have hregistry : course.db.registry.Consistent := hsame ▸ hfresh.consistent
  have hcount : ∀ model ∈ course.db.registry.models, model.columns.length < 4294967296 :=
    hsame ▸ hfresh.counted
  refine ⟨last, owner, rfl, howner, ?_, ?_⟩
  · intro handle hmem
    exact hafter.of_mem_gathers hregistry hcount hrest.settled hgathers hmem
  · intro handle entry hentry hthere hrelated
    refine (hafter.mem_gathers_iff hregistry hcount hrest hentry hthere howner hlive hgathers hrelated).trans ?_
    refine exists_congr fun relationship => and_congr_right fun _ => and_congr_right fun _ => ?_
    exact (@Database.run_fst_eq_ok _ (course.db.resume last)
      (Scope.related · handle relationship.name) last rfl (some target)).symm

/-! ## Holders of links -/

theorem linksAndHolders_orderedDefaults : linksAndHolders.registry.OrderedDefaults := by
  intro model hmodel column hcolumn value hvalue
  have hnone : ∀ model ∈ linksAndHolders.registry.models, ∀ column ∈ model.columns,
      column.default.isNone = true := by decide +kernel
  have hdefault := hnone model hmodel column hcolumn
  rw [hvalue] at hdefault
  cases hdefault

/-- A link is made and committed. -/
def linkIsKept : List Event := [.createSchema, .openScope, .deed (.act (.create "Link")), .commit]

/-- The link is found and held by a new holder.  Another holder is to hold a new link. -/
def linksAreHeld : List Task := [
  .act (.find "Link" 1), .act (.create "Holder"), .act (.setReference 1 "link" 0),
  .act (.create "Link"), .act (.create "Holder"), .act (.setReference 3 "link" 2)]

/-- The new link gets its key when its holders are looked up, and the holder that refers to it is the only one.
The other holder refers to the link that was found. -/
theorem collections_invert_relationships_of_holders :
    let course := ((linkIsKept.foldl Course.step { db := linksAndHolders }).step .openScope).work linksAreHeld
    ∃ after, course.db.run (Scope.backReference · 2 "holders") = (.ok [3], after) ∧
      (after.run (Scope.related · 3 "link")).1 = .ok (some 2) ∧
      (after.run (Scope.related · 1 "link")).1 ≠ .ok (some 2) := by
  let terms : Terms := { grounded := True, undeleted := True }
  have hmeets : Course.Meets terms { db := linksAndHolders } linkIsKept :=
    Course.meets_of_brings_nothing (by simp [linkIsKept]) (by simp [linkIsKept]) _
  have hclosed : (linkIsKept.foldl Course.step { db := linksAndHolders }).db.scope = none := by
    rw [← Option.isNone_iff_eq_none]
    decide +kernel
  have hnumbered := (linksAndHolders_fresh.intact hmeets).numbered trivial
  obtain ⟨before, hbefore, entry, hentry, hlive⟩ :
      let course :=
        ((linkIsKept.foldl Course.step { db := linksAndHolders }).step .openScope).work linksAreHeld
      ∃ before ∈ course.db.scope, ∃ entry ∈ before.entries[2]?, entry.state.isLive = true := by
    decide +kernel
  obtain ⟨hrun, last, hlast, hlink, hholders⟩ :
      let course :=
        ((linkIsKept.foldl Course.step { db := linksAndHolders }).step .openScope).work linksAreHeld
      let looked := course.db.run (Scope.backReference · 2 "holders")
      looked.1.toOption = some [3] ∧ ∃ last ∈ looked.2.scope,
        (last.entries[2]?).map (·.record.modelName) = some "Link" ∧
        ∀ handle ∈ [1, 3], ∃ holder ∈ last.entries[handle]?, holder.state.isLive = true ∧
          holder.record.model.relatedName = "holders" ∧
          holder.record.model.relationships.map (fun other => (other.name, other.target)) =
            [("link", "Link")] := by
    decide +kernel
  have hmain := @collections_invert_relationships _ linksAndHolders_fresh linksAndHolders_orderedDefaults _ _
    hmeets hclosed hnumbered linksAreHeld (by simp [linksAreHeld, Task.Ordered]) before 2
    ⟨entry, hentry, hlive⟩ hbefore
  -- From here on the course is not computed any more.
  generalize ((linkIsKept.foldl Course.step { db := linksAndHolders }).step .openScope).work linksAreHeld =
    course at *
  have hdone : course.db.run (Scope.backReference · 2 "holders") = (.ok [3], _) :=
    Prod.ext (toOption_eq_some.1 hrun) rfl
  obtain ⟨scope, owner, hscope, howner, -, hinverse⟩ := hmain _ _ _ hdone
  obtain rfl := Option.some.inj ((Option.mem_def.1 hlast).symm.trans hscope)
  -- Both holders have one relationship, which leads to links.
  have hdesignates : ∀ handle ∈ [1, 3], handle ∈ [3] ↔
      ((course.db.run (Scope.backReference · 2 "holders")).2.run (Scope.related · handle "link")).1 =
        .ok (some 2) := by
    intro handle hhandle
    obtain ⟨holder, hholder, hthere, hrelated, hnames⟩ := hholders handle hhandle
    rw [hinverse handle holder hholder hthere hrelated]
    obtain ⟨relationship, hrelationships⟩ := List.length_eq_one_iff.1
      (by simpa using congrArg List.length hnames)
    simp only [hrelationships, List.map_cons, List.map_nil, List.cons.injEq, Prod.mk.injEq, and_true] at hnames
    rw [howner, Option.map_some, Option.some.injEq] at hlink
    simp [hrelationships, hnames.1, hnames.2, hlink]
  exact ⟨_, hdone, (hdesignates 3 (by simp)).1 (by simp), mt (hdesignates 1 (by simp)).2 (by simp)⟩

/-- A link is made in a scope that is left. -/
def linkIsTakenBack : List Event := [
  .createSchema, .openScope, .deed (.act (.create "Link")), .deed (.act .flush)]

/-- A copy of the link is committed after all, with its number, which is still to be given, and a holder that
refers to it.  Then it is found, and another link is made. -/
def linkNumberIsTaken (copy : Record) : List Event := [
  .rollback, .openScope, .deed (.add copy), .deed (.act (.assign 0 "data" (.mapping []))),
  .deed (.act (.create "Holder")), .deed (.act (.setReference 1 "link" 0)), .commit,
  .openScope, .deed (.act (.find "Link" 1)), .deed (.act (.create "Link"))]

/-- The other link gets the number of the link that was found.  The holder is in the collection of the one, and
its relationship designates the other. -/
theorem number_given_again_diverts_relationship :
    let before := linkIsTakenBack.foldl Course.step { db := linksAndHolders }
    ∃ copy ∈ before.record? 0,
      let course := (linkNumberIsTaken copy).foldl Course.step before
      let looked := course.db.run (Scope.backReference · 0 "holders")
      (∃ scope ∈ course.db.scope, ∃ link ∈ scope.entries[0]?, link.state.isLive = true) ∧
        looked.1.toOption = some [2] ∧
        ∃ last ∈ looked.2.scope, ∃ holder ∈ last.entries[2]?, holder.state.isLive = true ∧
          holder.record.model.relatedName = "holders" ∧
          ∀ relationship ∈ holder.record.model.relationships,
            (looked.2.run (Scope.related · 2 relationship.name)).1.toOption = some (some 1) := by
  decide +kernel

end RecordStore
