import RecordStore.Proofs.Integrity.Courses
import RecordStore.Proofs.Scope.Aligned

/-!
# Tasks

A task is something that is done in a scope with its own records: an act, or a sequence of changes of a
container in place, of which some may fail.  No record comes from outside.

A scope that is opened where every row has a number that was given (`Database.Numbered`) is aligned, and
stays aligned in any sequence of tasks (`Course.Aligned.work`).  Rows have such numbers as long as
records that come from outside have their rows (`Course.Intact.numbered`).
-/

namespace RecordStore

/-- What can be done in a scope with its own records. -/
inductive Task where
  | act (act : Act)
  | list (handle : Handle) (attr : String) (changes : List ListChange)
  | mapping (handle : Handle) (attr : String) (changes : List MappingChange)
  | members (handle : Handle) (attr : String) (changes : List SetChange)

namespace Task

/-- The deed of a task.  A change that fails leaves the container for the next one. -/
def deed : Task → Deed
  | .act what => .act what
  | .list handle attr changes =>
      .edit handle (.list attr fun view => .ok (changes.foldl ListChange.apply view))
  | .mapping handle attr changes =>
      .edit handle (.mapping attr fun view => .ok (changes.foldl MappingChange.apply view))
  | .members handle attr changes =>
      .edit handle (.members attr fun view => .ok (changes.foldl SetChange.apply view))

/-- The mappings in all values that come into records have their entries in key order, in which mappings
keep them. -/
def Ordered : Task → Prop
  | .act (.assign _ _ value) => value.KeyOrdered
  | .act _ => True
  | .list _ _ changes => ∀ change ∈ changes, ∀ value ∈ change.values, value.KeyOrdered
  | .mapping _ _ changes => ∀ change ∈ changes, ∀ value ∈ change.values, value.KeyOrdered
  | .members _ _ changes => ∀ change ∈ changes, ∀ value ∈ change.values, value.KeyOrdered

end Task

/-! ## Changes of containers -/

namespace Record

variable {record : Record} {attr : String}

/-- A view shows what the column holds, and nothing is marked in it. -/
theorem of_listView {view : TrackedList} (h : record.listView attr = .ok view) :
    record.mutableValue attr = .ok view.content.value ∧ view.content.marked = false := by
  obtain ⟨viewed, hviewed, hview⟩ := bind_eq_ok.1 h
  cases viewed <;> cases hview
  exact ⟨hviewed, rfl⟩

theorem of_mappingView {view : TrackedMapping} (h : record.mappingView attr = .ok view) :
    record.mutableValue attr = .ok view.content.value ∧ view.content.marked = false := by
  obtain ⟨viewed, hviewed, hview⟩ := bind_eq_ok.1 h
  cases viewed <;> cases hview
  exact ⟨hviewed, rfl⟩

theorem of_setView {view : TrackedSet} (h : record.setView attr = .ok view) :
    record.mutableValue attr = .ok view.content.value ∧ view.content.marked = false := by
  obtain ⟨viewed, hviewed, hview⟩ := bind_eq_ok.1 h
  cases viewed <;> cases hview
  exact ⟨hviewed, rfl⟩

end Record

namespace Edit

variable {edit : Edit} {attr : String} {becomes : Content → Content → Prop}

/-- All that a change does is to put content back into a column that can be changed in place, made of what
the column held. -/
def ChangesInPlace (edit : Edit) (attr : String) (becomes : Content → Content → Prop) : Prop :=
  ∀ record changed, edit.change record = .ok changed → ∃ viewed content,
    record.mutableValue attr = .ok viewed ∧ becomes { value := viewed, marked := false } content ∧
      changed = record.putBack attr content.value content.marked

/-- What views a container, changes it and puts it back changes it in place. -/
theorem changesInPlace_of_view {View : Type} {view : Record → Except Error View} {f : View → View}
    {content : View → Content}
    (hview : ∀ record shown, view record = .ok shown →
      record.mutableValue attr = .ok (content shown).value ∧ (content shown).marked = false)
    (hchange : ∀ record, edit.change record = do
      let shown ← view record
      return record.putBack attr (content (f shown)).value (content (f shown)).marked)
    (hbecomes : ∀ shown, becomes (content shown) (content (f shown))) :
    edit.ChangesInPlace attr becomes := by
  intro record changed h
  rw [hchange record] at h
  obtain ⟨shown, hshown, h⟩ := bind_eq_ok.1 h
  cases h
  obtain ⟨hviewed, hunmarked⟩ := hview record shown hshown
  refine ⟨_, content (f shown), hviewed, ?_, rfl⟩
  rw [← hunmarked]
  exact hbecomes shown

/-- A change in place that keeps the content, where it is not marked, is retained. -/
theorem ChangesInPlace.retains (h : edit.ChangesInPlace attr Content.Kept) {find? : String → Option Model}
    {record changed : Record} (hcompiled : record.model.Compiled find?) (hwhole : record.Whole)
    (hchange : edit.change record = .ok changed) : record.Retains changed := by
  obtain ⟨viewed, content, hviewed, hkept, rfl⟩ := h record changed hchange
  exact Record.retains_changed hcompiled hwhole hviewed hkept

end Edit

/-- A task is an act or changes a container in place. -/
theorem Task.act_or_inPlace (task : Task) : (∃ act, task = .act act) ∨
    ∃ handle attr edit, task.deed = .edit handle edit ∧
      edit.ChangesInPlace attr fun before after => task.Ordered → before.Kept after := by
  cases task with
  | act act => exact Or.inl ⟨act, rfl⟩
  | list handle attr changes =>
      refine Or.inr ⟨handle, attr, _, rfl, ?_⟩
      exact Edit.changesInPlace_of_view (fun _ _ => Record.of_listView) (fun _ => rfl)
        fun view hordered => ListChange.kept_foldl hordered view
  | mapping handle attr changes =>
      refine Or.inr ⟨handle, attr, _, rfl, ?_⟩
      exact Edit.changesInPlace_of_view (fun _ _ => Record.of_mappingView) (fun _ => rfl)
        fun view hordered => MappingChange.kept_foldl hordered view
  | members handle attr changes =>
      refine Or.inr ⟨handle, attr, _, rfl, ?_⟩
      exact Edit.changesInPlace_of_view (fun _ _ => Record.of_setView) (fun _ => rfl)
        fun view hordered => SetChange.kept_foldl hordered view

/-! ## One task -/

namespace Scope

variable {env : Environment} {deleted : List (String × UInt64)} {scope : Scope}

section

variable (hregistry : env.registry.Consistent)
  (hcount : ∀ model ∈ env.registry.models, model.columns.length < 4294967296)

include hregistry hcount

theorem Aligned.edit (h : scope.Aligned env deleted) (handle : Handle) (edit : Edit)
    (hretains : ∀ (record changed : Record) (find? : String → Option Model),
      record.model.Compiled find? → record.Whole → edit.change record = .ok changed →
        record.Retains changed) :
    (updateRecord handle edit.change).Ends scope (fun _ => Aligned env deleted)
      (Aligned env deleted) := by
  have hrefl : scope.Reaches env .inside scope := Relation.ReflTransGen.refl
  refine h.ends hregistry hcount ((updateRecord_steady env scope handle edit.keeps).mono
    (fun _ _ => reaches_steady hrefl) fun _ => reaches_steady hrefl) ?_
  refine updateRecord_mirrored h.mirrored handle ?_
  intro entry hentry changed hchanged
  obtain ⟨_, hcompiled⟩ := h.anchored.rooted.compiled hregistry hentry
  exact hretains _ _ _ hcompiled (h.mirrored.entries handle entry hentry).whole hchanged

variable (hdefaults : env.registry.OrderedDefaults)

include hdefaults

theorem Aligned.act (h : scope.Aligned env deleted) {act : Act} (hordered : (Task.act act).Ordered) :
    (act.perform env).Ends scope (fun _ => Aligned env deleted) (Aligned env deleted) := by
  have hlook := lookable_aligned hregistry hcount hdefaults deleted
  have hreaches : (act.perform env).Ends scope (fun _ => scope.Reaches env .inside)
      (scope.Reaches env .inside) := Deed.act_reaches hregistry h.anchored.rooted act False.elim
  cases act with
  | create model =>
      exact h.ends hregistry hcount hreaches (ScopeM.ends_discard (create_mirrored h.mirrored model))
  | assign handle attr value =>
      refine h.edit hregistry hcount handle (Edit.set attr value) ?_
      intro record changed _ hcompiled _ hchanged
      exact Record.retains_set hcompiled hordered hchanged
  | setReference handle field target =>
      exact h.ends hregistry hcount hreaches
        (setReference_mirrored hregistry h.anchored.rooted h.mirrored handle field target)
  | delete handle => exact h.ends hregistry hcount hreaches (delete_mirrored h.mirrored handle)
  | _ => exact Act.keeps_of_looksUp hlook hregistry (by trivial) scope h

theorem Aligned.task (h : scope.Aligned env deleted) {task : Task} (hordered : task.Ordered) :
    (task.deed.perform env).Ends scope (fun _ => Aligned env deleted) (Aligned env deleted) := by
  rcases task.act_or_inPlace with ⟨act, rfl⟩ | ⟨handle, attr, edit, hdeed, hchanges⟩
  · exact h.act hregistry hcount hdefaults hordered
  · rw [hdeed]
    refine h.edit hregistry hcount handle edit ?_
    intro record changed _ hcompiled hwhole hchanged
    have hkept : edit.ChangesInPlace attr Content.Kept := by
      intro record changed hchanged
      obtain ⟨viewed, content, hviewed, hkept, hput⟩ := hchanges record changed hchanged
      exact ⟨viewed, content, hviewed, hkept hordered, hput⟩
    exact hkept.retains hcompiled hwhole hchanged

end

end Scope

/-! ## Sequences of tasks -/

/-- The number of every row is positive, and the sequence of the table has come as far. -/
def Database.Numbered (db : Database) : Prop :=
  ∀ model ∈ db.registry.models, ∀ number row,
    db.storage.row? model.tableName number = .ok (some row) → 0 < number.toNat ∧
      ∀ sequence value, model.sequence? = some sequence →
        db.storage.sequenceValue sequence = .ok value → number.toNat ≤ value

namespace Course

variable {registry : Registry} {terms : Terms} {course : Course}

/-- While records that come from outside have their rows, the numbers of all rows were given. -/
theorem Intact.numbered (h : course.Intact registry terms) (hterms : terms.grounded) :
    course.db.Numbered := by
  intro model hmodel number row hrow
  obtain ⟨hpositive, hreached⟩ :=
    ((h.stored course.db.supply).keyed hterms).rows model hmodel number row hrow
  exact ⟨hpositive, hreached⟩

/-- The course after tasks are done one after the other, each whether it succeeds or fails. -/
def work (course : Course) (tasks : List Task) : Course :=
  tasks.foldl (fun course task => course.step (.deed task.deed)) course

/-- The open scope, if there is one, is aligned. -/
def Aligned (course : Course) : Prop :=
  ∀ scope, course.db.scope = some scope →
    ({ scope with supply := course.db.supply } : Scope).Aligned course.db.environment course.deleted

/-- A scope that was just opened is aligned, whatever came into the scopes before. -/
theorem Intact.aligned_openScope (h : course.Intact registry terms) (hclosed : course.db.scope = none)
    (hnumbered : course.db.Numbered) : (course.step .openScope).Aligned := by
  unfold Course.step
  cases hopen : course.db.openScope with
  | error error =>
      intro scope hscope
      rw [hclosed] at hscope
      cases hscope
  | ok opened =>
      obtain ⟨-, -, rfl⟩ := Database.openScope_eq_ok.1 hopen
      intro scope hscope
      cases hscope
      have hstored := h.stored course.db.supply
      refine ⟨⟨hstored.rooted, hstored.rows, hstored.holdsKeys, ?_⟩, Scope.mirrored_empty _ _⟩
      exact ⟨fun _ _ hs => by (cases hs), hnumbered⟩

variable (hregistry : registry.Consistent)
  (hcount : ∀ model ∈ registry.models, model.columns.length < 4294967296)
  (hdefaults : registry.OrderedDefaults)

include hregistry hcount hdefaults

theorem Aligned.step_task (h : course.Aligned) (hsame : course.db.registry = registry) {task : Task}
    (hordered : task.Ordered) :
    (course.step (.deed task.deed)).Aligned ∧
      (course.step (.deed task.deed)).db.registry = registry := by
  subst hsame
  show ({ course with db := (course.db.run fun env => task.deed.perform env).2 } : Course).Aligned ∧
    (course.db.run fun env => task.deed.perform env).2.registry = course.db.registry
  cases hscope : course.db.scope with
  | none =>
      rw [Database.run_of_none hscope]
      exact ⟨h, rfl⟩
  | some scope =>
      have hends := (h scope hscope).task hregistry hcount hdefaults hordered
      obtain ⟨after, hrun, hafter⟩ :=
        Database.run_keeps hscope (fun env => task.deed.perform env) hends
      rw [hrun]
      refine ⟨?_, rfl⟩
      intro last hlast
      cases hlast
      exact hafter

/-- A scope stays aligned in any sequence of tasks. -/
theorem Aligned.work (h : course.Aligned) (hsame : course.db.registry = registry)
    {tasks : List Task} (hordered : ∀ task ∈ tasks, task.Ordered) :
    (course.work tasks).Aligned ∧ (course.work tasks).db.registry = registry := by
  induction tasks generalizing course with
  | nil => exact ⟨h, hsame⟩
  | cons task rest ih =>
      obtain ⟨hnext, hkept⟩ :=
        h.step_task hregistry hcount hdefaults hsame (hordered task List.mem_cons_self)
      exact ih hnext hkept fun other hother => hordered other (List.mem_cons_of_mem _ hother)

end Course

/-- Any tasks in a scope that is opened after a course of events leave the scope aligned. -/
theorem Database.Fresh.aligned_work {db : Database} (h : db.Fresh)
    (hdefaults : db.registry.OrderedDefaults) {terms : Terms} {events : List Event}
    (hmeets : Course.Meets terms { db } events)
    (hclosed : (events.foldl Course.step { db }).db.scope = none)
    (hnumbered : (events.foldl Course.step { db }).db.Numbered) {tasks : List Task}
    (hordered : ∀ task ∈ tasks, task.Ordered) :
    (((events.foldl Course.step { db }).step .openScope).work tasks).Aligned ∧
      (((events.foldl Course.step { db }).step .openScope).work tasks).db.registry = db.registry := by
  have hintact : (events.foldl Course.step { db }).Intact db.registry terms := h.intact hmeets
  exact (hintact.aligned_openScope hclosed hnumbered).work h.consistent h.counted hdefaults
    hintact.openScope.registry_eq hordered

end RecordStore
