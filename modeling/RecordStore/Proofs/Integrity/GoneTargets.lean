import RecordStore.Proofs.Integrity.ForeignKeys
import RecordStore.Proofs.Scope.Failures
import RecordStore.Proofs.Scope.Resolving

/-!
# Flushes that fail for links

A flush gives all keys before it fills the first link.  So a link can be filled as long as its target is to
stay, and a flush fails for a record that goes away exactly when all keys could be given and some link leads
to such a record; the error names the column of the first of these links
(`flush_fails_for_first_gone_target`).  Whether the record with the link is itself to stay does not matter:
when it was discarded together with the target of its link, the flush fails although the link is for nothing
that is to be written (`discarded_holder_fails_flush`).
-/

namespace RecordStore

namespace Scope

variable {env : Environment} {start scope before after : Scope} {handle target : Handle} {column : String}

/-! ## Records that are to stay -/

/-- A record is to stay. -/
def Stays (scope : Scope) (handle : Handle) : Prop :=
  ∃ entry, scope.entries[handle]? = some entry ∧ entry.state.isLive = true

theorem stays_congr (h : after.entries = before.entries) (handle : Handle) :
    after.Stays handle ↔ before.Stays handle := by
  unfold Stays
  rw [h]

/-- Whether a record is to stay does not depend on what it holds. -/
theorem stays_modifyRecord (scope : Scope) (handle : Handle) (f : Record → Record) (other : Handle) :
    (scope.modifyRecord handle f).Stays other ↔ scope.Stays other := by
  unfold Stays
  rw [getElem?_modifyRecord]
  cases scope.entries[other]? with
  | none => simp
  | some entry => by_cases hsame : handle = other <;> simp [hsame]

/-- Records that are to stay can be linked to once they all have keys. -/
theorem LiveKeyed.linkedId?_eq_none (h : scope.LiveKeyed) :
    scope.linkedId? target = none ↔ ¬scope.Stays target := by
  rw [← not_iff_not, ← ne_eq, Option.ne_none_iff_exists', not_not]
  constructor
  · rintro ⟨id, hid⟩
    obtain ⟨entry, hentry, hlive, -⟩ := linkedId?_eq_some.1 hid
    exact ⟨entry, hentry, hlive⟩
  · rintro ⟨entry, hentry, hlive⟩
    obtain ⟨id, hid⟩ := Option.ne_none_iff_exists'.1 (h target entry hentry hlive)
    exact ⟨id, linkedId?_eq_some.2 ⟨entry, hentry, hlive, hid⟩⟩

/-- A link of a column leads to a record that is not to stay, and no link before it does. -/
def FirstGone (scope : Scope) (handle : Handle) (column : String) : Prop :=
  ∃ target, scope.links.find? (handle, column) = some target ∧ ¬scope.Stays target ∧
    ∀ key other, scope.links.find? key = some other → KeyOrder.lt key (handle, column) = true →
      scope.Stays other

theorem firstGone_congr (hlinks : after.links = before.links)
    (hstays : ∀ handle, after.Stays handle ↔ before.Stays handle) :
    after.FirstGone handle column ↔ before.FirstGone handle column := by
  simp only [FirstGone, hlinks, hstays]

/-- The links stand in the order of their keys. -/
theorem firstGone_iff : scope.FirstGone handle column ↔
    ∃ earlier target later, scope.links.toList = earlier ++ ((handle, column), target) :: later ∧
      ¬scope.Stays target ∧ ∀ link ∈ earlier, scope.Stays link.2 := by
  constructor
  · rintro ⟨target, hlink, hgone, hbefore⟩
    obtain ⟨earlier, later, hsplit⟩ := List.append_of_mem (SortedMap.find?_eq_some_iff.1 hlink)
    refine ⟨earlier, target, later, hsplit, hgone, ?_⟩
    rintro ⟨key, other⟩ hmem
    have hsorted := scope.links.sorted
    rw [hsplit] at hsorted
    refine hbefore key other ?_ ((List.pairwise_append.1 hsorted).2.2 _ hmem _ List.mem_cons_self)
    exact SortedMap.find?_eq_some_iff.2 (hsplit ▸ List.mem_append_left _ hmem)
  · rintro ⟨earlier, target, later, hsplit, hgone, hearlier⟩
    have hsorted := scope.links.sorted
    rw [hsplit] at hsorted
    refine ⟨target, SortedMap.find?_eq_some_iff.2 (by simp [hsplit]), hgone, ?_⟩
    intro key other hlink hlt
    have hmem := SortedMap.find?_eq_some_iff.1 hlink
    rw [hsplit] at hmem
    rcases List.mem_append.1 hmem with hfirst | hlater
    · exact hearlier _ hfirst
    · simp [hsorted.lt_eq_false_of_mem hlater] at hlt

/-! ## Filling links -/

/-- A link whose target has no key to give names its column. -/
theorem run_resolveLink_of_none (h : scope.linkedId? target = none) :
    (resolveLink ((handle, column), target)).run scope =
      .error (.invalidValue (.deletedTarget column)) scope := by
  unfold resolveLink
  rw [EStateM.run_bind, EStateM.run_get]
  simp only [h]
  rfl

/-- Links are filled one after the other, up to the first one whose target is not to stay. -/
theorem forM_resolveLink_error_iff (h : scope.LiveKeyed) (links : List ((Handle × String) × Handle)) :
    (∃ after, (links.forM resolveLink).run scope =
        .error (.invalidValue (.deletedTarget column)) after) ↔
      ∃ earlier handle target later, links = earlier ++ ((handle, column), target) :: later ∧
        ¬scope.Stays target ∧ ∀ link ∈ earlier, scope.Stays link.2 := by
  induction links generalizing scope with
  | nil =>
      constructor
      · rintro ⟨after, hrun⟩
        cases hrun
      · rintro ⟨earlier, _, _, _, hsplit, -⟩
        simp at hsplit
  | cons link rest ih =>
      obtain ⟨⟨place, name⟩, goal⟩ := link
      rw [List.forM_eq_forM, List.forM_cons, EStateM.run_bind]
      by_cases hstays : scope.Stays goal
      · -- The link is filled, and the others lead where they led.
        obtain ⟨id, hid⟩ := Option.ne_none_iff_exists'.1 (mt h.linkedId?_eq_none.1 (not_not.2 hstays))
        cases hrun : (resolveLink ((place, name), goal)).run scope with
        | error _ _ =>
            obtain ⟨-, hnone⟩ := (resolveLink_cases scope place name goal).of_error hrun
            cases hid.symm.trans hnone
        | ok _ filled =>
            obtain ⟨key, -, rfl⟩ := (resolveLink_cases scope place name goal).of_ok hrun
            have hfilled : (scope.modifyRecord place fun record =>
                (record.putValue name (.integer key)).markChanged name).LiveKeyed :=
              h.modifyRecord fun _ => rfl
            refine (ih hfilled).trans ?_
            simp only [stays_modifyRecord]
            constructor
            · rintro ⟨earlier, handle, target, later, rfl, hgone, hearlier⟩
              exact ⟨((place, name), goal) :: earlier, handle, target, later, rfl, hgone,
                List.forall_mem_cons.2 ⟨hstays, hearlier⟩⟩
            · rintro ⟨earlier, handle, target, later, hsplit, hgone, hearlier⟩
              cases earlier with
              | nil =>
                  cases hsplit
                  exact absurd hstays hgone
              | cons first earlier =>
                  cases hsplit
                  exact ⟨earlier, handle, target, later, rfl, hgone, (List.forall_mem_cons.1 hearlier).2⟩
      · -- The loop stops at this link, which is the first one.
        rw [run_resolveLink_of_none (h.linkedId?_eq_none.2 hstays)]
        constructor
        · rintro ⟨_, hrun⟩
          cases hrun
          exact ⟨[], place, goal, rest, rfl, hstays, by simp⟩
        · rintro ⟨earlier, handle, target, later, hsplit, -, hearlier⟩
          cases earlier with
          | nil =>
              cases hsplit
              exact ⟨scope, rfl⟩
          | cons first earlier =>
              cases hsplit
              exact absurd (hearlier _ List.mem_cons_self) hstays

/-- Filling links fails for a record that goes away exactly when there is such a link. -/
theorem resolveLinks_error_iff (h : scope.LiveKeyed) :
    (∃ after, resolveLinks.run scope = .error (.invalidValue (.deletedTarget column)) after) ↔
      ∃ handle, scope.FirstGone handle column := by
  -- The links are forgotten first, which moves no record.
  have hforget : ({ scope with links := ∅ } : Scope).LiveKeyed := h
  refine (forM_resolveLink_error_iff hforget scope.links.toList).trans ?_
  simp only [firstGone_iff]
  constructor
  · rintro ⟨earlier, handle, target, later, hlinks⟩
    exact ⟨handle, earlier, target, later, hlinks⟩
  · rintro ⟨handle, earlier, target, later, hlinks⟩
    exact ⟨earlier, handle, target, later, hlinks⟩

/-! ## Flushing -/

/-- Giving keys leaves the links, and every record stays or goes as before. -/
theorem assignIds_stays (env : Environment) (start : Scope) :
    (assignIds env).Ends start
      (fun _ after => after.links = start.links ∧ ∀ handle, after.Stays handle ↔ start.Stays handle)
      (fun _ => True) := by
  refine ScopeM.ends_get_bind (ScopeM.ends_forM ⟨rfl, fun _ => Iff.rfl⟩ ?_)
  rintro place - scope ⟨hlinks, hstays⟩
  refine (assignId_outcome scope env place).mono ?_ fun _ _ => trivial
  rintro _ _ (_ | ⟨entry, asked, sequence, current, id, -, -, hasked, -, -, -⟩)
  · exact ⟨hlinks, hstays⟩
  · refine ⟨hasked.same.links.trans hlinks, ?_⟩
    intro handle
    let given := asked.modifyRecord place fun record => record.assignId id
    refine (stays_congr (show _ = given.entries from rfl) handle).trans ?_
    refine (stays_modifyRecord asked place _ handle).trans ?_
    exact (stays_congr hasked.same.entries handle).trans (hstays handle)

/-- When all keys are given, every record that is to stay has one. -/
theorem assignIds_keys (hrooted : start.Rooted env) :
    (assignIds env).Ends start
      (fun _ after => (after.links = start.links ∧ ∀ handle, after.Stays handle ↔ start.Stays handle) ∧
        after.LiveKeyed)
      (fun _ => True) := by
  let terms : Terms := { grounded := False, undeleted := False }
  have hreaches := @assignIds_reaches env terms start hrooted start Relation.ReflTransGen.refl
  refine (((assignIds_stays env start).and (assignIds_gives start env)).and
    (hreaches.mono (fun _ _ hdone => hdone) fun _ _ => trivial)).mono ?_ fun _ _ => trivial
  rintro _ after ⟨⟨⟨hlinks, hstays⟩, hgiven⟩, hafter⟩
  refine ⟨⟨hlinks, hstays⟩, ?_⟩
  intro handle entry hentry hlive
  cases hcase : entry.state with
  | pending =>
      obtain ⟨_, hstart, -⟩ := (hstays handle).1 ⟨entry, hentry, hlive⟩
      exact hgiven handle (List.mem_range.2 (List.getElem?_eq_some_iff.1 hstart).1) entry hentry hcase
  | persistent => exact (hrooted.reaches hafter).stored handle _ (standing_of_entry hentry) hcase
  | deleted | removed => simp [hcase, Lifecycle.isLive] at hlive

/-- A flush fails for a record that goes away exactly when it has given all keys and there is a link to such
a record. -/
theorem flush_error_iff (hrooted : start.Rooted env) :
    (∃ after, (flush env).run start = .error (.invalidValue (.deletedTarget column)) after) ↔
      (∃ numbered, (assignIds env).run start = .ok () numbered) ∧
        ∃ handle, start.FirstGone handle column := by
  unfold flush
  rw [EStateM.run_bind]
  cases hgiven : (assignIds env).run start with
  | error error after =>
      -- No key could be given for another reason.
      have hplain := ScopeM.failsPlainly_assignIds env start error after hgiven
      constructor
      · rintro ⟨_, hrun⟩
        cases hrun
        exact hplain.elim
      · rintro ⟨⟨_, hrun⟩, -⟩
        cases hrun
  | ok _ numbered =>
      obtain ⟨⟨hlinks, hstays⟩, hkeyed⟩ := (assignIds_keys hrooted).of_ok hgiven
      simp only [← firstGone_congr hlinks hstays, ← resolveLinks_error_iff hkeyed]
      rw [EStateM.run_bind]
      cases hfilled : resolveLinks.run numbered with
      | error error after =>
          constructor
          · rintro ⟨_, hrun⟩
            cases hrun
            exact ⟨⟨_, rfl⟩, _, rfl⟩
          · rintro ⟨-, _, hrun⟩
            cases hrun
            exact ⟨_, rfl⟩
      | ok _ filled =>
          -- Nothing that comes after the links fails for a record that goes away.
          constructor
          · rintro ⟨after, hrun⟩
            exact (ScopeM.failsPlainly_staging env filled _ after hrun).elim
          · rintro ⟨-, _, hrun⟩
            cases hrun

end Scope

namespace Database

variable {α : Type} {db : Database} {action : Environment → ScopeM α} {scope : Scope}

theorem run_fst_eq_ok (hscope : db.scope = some scope) {a : α} : (db.run action).1 = .ok a ↔
    ∃ after, (action db.environment).run { scope with supply := db.supply } = .ok a after := by
  cases hrun : (action db.environment).run { scope with supply := db.supply } with
  | ok b after => simp [run_of_ok hscope hrun]
  | error error after => simp [run_of_error hscope hrun]

theorem run_fst_eq_error (hscope : db.scope = some scope) {error : Error} :
    (db.run action).1 = .error error ↔
      ∃ after, (action db.environment).run { scope with supply := db.supply } = .error error after := by
  cases hrun : (action db.environment).run { scope with supply := db.supply } with
  | ok a after => simp [run_of_ok hscope hrun]
  | error found after => simp [run_of_error hscope hrun]

end Database

/-- A flush fails for a record that goes away only where a link leads to one.  Take a database to which nothing
has happened and any course of events in which the records that come from outside are of its models.  Flushing
the open scope fails because the record that a column refers to goes away exactly when all keys can be given,
and a record has a link in this column to one that does not stay, while all links before it, in the order of
their handles and columns, lead to records that stay.  It is not asked whether the record with the link is
itself to stay. -/
theorem flush_fails_for_first_gone_target {db : Database} (hfresh : db.Fresh) {terms : Terms}
    {events : List Event} (hmeets : Course.Meets terms { db } events) {scope : Scope}
    (hscope : (events.foldl Course.step { db }).db.scope = some scope) (column : String) :
    let course := events.foldl Course.step { db }
    (course.db.run Scope.flush).1 = .error (.invalidValue (.deletedTarget column)) ↔
      (course.db.run Scope.assignIds).1 = .ok () ∧ ∃ handle, scope.FirstGone handle column := by
  intro course
  have hintact : course.Intact db.registry terms := hfresh.intact hmeets
  have hmain := @Scope.flush_error_iff _ _ column (hintact.opened scope hscope).rooted
  -- The supply says nothing of records and links.
  have hsupply : ∀ handle, ({ scope with supply := course.db.supply } : Scope).FirstGone handle column ↔
      scope.FirstGone handle column := fun _ => Scope.firstGone_congr rfl (Scope.stays_congr rfl)
  simp only [hsupply] at hmain
  rw [Database.run_fst_eq_error hscope, Database.run_fst_eq_ok hscope]
  exact hmain

/-- A holder refers to a new link and is discarded. -/
def holderIsDiscarded : List Event := [
  .createSchema, .openScope, .deed (.act (.create "Holder")), .deed (.act (.create "Link")),
  .deed (.act (.setReference 0 "link" 1)), .deed (.act (.delete 0))]

/-- The link of the discarded holder leads to a record that stays, and does no harm. -/
theorem flush_fails_for_first_gone_target_discarded :
    let course := holderIsDiscarded.foldl Course.step { db := linksAndHolders }
    course.db.scope.isSome = true ∧ ∀ column,
      (course.db.run Scope.flush).1 ≠ .error (.invalidValue (.deletedTarget column)) := by
  let terms : Terms := { grounded := True, undeleted := False }
  have hmeets : Course.Meets terms { db := linksAndHolders } holderIsDiscarded :=
    Course.meets_of_brings_nothing (by simp [holderIsDiscarded]) False.elim _
  obtain ⟨scope, hscope, hlinks⟩ :
      ∃ scope ∈ (holderIsDiscarded.foldl Course.step { db := linksAndHolders }).db.scope,
        ∀ link ∈ scope.links.toList, (scope.entries[link.2]?).any (·.state.isLive) = true := by
    decide +kernel
  have hmain := @flush_fails_for_first_gone_target _ linksAndHolders_fresh terms _ hmeets scope hscope
  -- From here on the course is not computed any more.
  generalize holderIsDiscarded.foldl Course.step { db := linksAndHolders } = course at *
  refine ⟨Option.isSome_iff_exists.2 ⟨scope, hscope⟩, ?_⟩
  intro column hfails
  obtain ⟨-, handle, target, hlink, hgone, -⟩ := (hmain column).1 hfails
  have hlive := hlinks _ (SortedMap.find?_eq_some_iff.1 hlink)
  rw [Option.any_eq_true] at hlive
  exact hgone hlive

/-- The link that the holder refers to is discarded as well. -/
def linkIsDiscarded : List Event := holderIsDiscarded ++ [.deed (.act (.delete 1))]

/-- The flush fails for the link of the discarded holder, though no record is to stay. -/
theorem discarded_holder_fails_flush :
    let course := linkIsDiscarded.foldl Course.step { db := linksAndHolders }
    (∃ scope, course.db.scope = some scope ∧ ∀ handle, ¬scope.Stays handle) ∧
      (course.db.run Scope.flush).1 = .error (.invalidValue (.deletedTarget "_link_id")) := by
  obtain ⟨⟨scope, hscope, hentries⟩, hfails⟩ :
      let course := linkIsDiscarded.foldl Course.step { db := linksAndHolders }
      (∃ scope ∈ course.db.scope, ∀ entry ∈ scope.entries, entry.state.isLive = false) ∧
        (course.db.run Scope.flush).1 = .error (.invalidValue (.deletedTarget "_link_id")) := by
    decide +kernel
  refine ⟨⟨scope, hscope, ?_⟩, hfails⟩
  rintro handle ⟨entry, hentry, hlive⟩
  simp [hentries entry (List.mem_of_getElem? hentry)] at hlive

end RecordStore
