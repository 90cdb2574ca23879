import RecordStore.Proofs.Integrity.Courses
import RecordStore.Proofs.Scope.Imaging

/-!
# Fresh keys

A sequence is known in two places, the storage and the open scope, and gives keys to new records.  While
records that come from outside have their rows, a key that is given is new: no row has its number, and
every number that was seen is smaller (`given_keys_are_fresh`).  A table that starts anew starts at one,
and the row of the first key is there when the scope is committed, unless the record that had the key was
deleted before (`first_key_may_be_lost`).
-/

namespace RecordStore

namespace Scope

variable {env : Environment} {terms : Terms} {deleted : List (String × UInt64)}
  {before after scope : Scope} {handle : Handle} {s s' : Standing} {model : Model} {id : Int64}

/-! ## Keys along moves -/

theorem Advances.trans {last : Scope} (h : before.Advances env after) (h' : after.Advances env last) :
    before.Advances env last := by
  intro sequence value hvalue
  obtain ⟨middle, hmiddle, hle⟩ := h' sequence value hvalue
  obtain ⟨old, hold, hle'⟩ := h sequence middle hmiddle
  exact ⟨old, hold, Nat.le_trans hle' hle⟩

theorem Move.advances (h : Move env terms before after) : before.Advances env after := by
  cases h with
  | steady hsteady =>
      intro sequence value hvalue
      exact ⟨value, (hsteady.sequenceValue sequence).symm.trans hvalue, Nat.le_refl _⟩
  | exhaust _ _ _ hcurrent => exact advances_advance hcurrent (Nat.le_succ _)
  | giveKey _ _ _ hcurrent => exact advances_advance hcurrent (Nat.le_succ _)
  | enter | adopt | withdraw | settle => exact .refl env before

theorem reaches_advances (h : before.Reaches env terms after) : before.Advances env after := by
  induction h with
  | refl => exact .refl env before
  | tail _ hmove ih => exact ih.trans hmove.advances

theorem reaches_carries (h : before.Reaches env terms after) (hs : before.standing handle = some s) :
    ∃ s', after.standing handle = some s' ∧ s'.model = s.model ∧
      ∀ id, s.id = some id → s'.id = some id := by
  induction h with
  | refl => exact ⟨s, hs, rfl, fun _ hid => hid⟩
  | tail _ hmove ih =>
      obtain ⟨middle, hmiddle, hmodel, hkept⟩ := ih
      obtain ⟨last, hlast, hmodel', hkept'⟩ := hmove.carries hmiddle
      exact ⟨last, hlast, hmodel'.trans hmodel, fun id hid => hkept' id (hkept id hid)⟩

/-- A record gets its key from the sequence of its model. -/
theorem Move.key_drawn (h : Move env terms before after) (hs : before.standing handle = some s)
    (hnone : s.id = none) (hs' : after.standing handle = some s') (hid : s'.id = some id) :
    ∃ sequence value, s.model.sequence? = some sequence ∧
      before.sequenceValue env sequence = .ok value ∧ (value : Int) < id.toInt := by
  have hunchanged : after.standing handle = some s → False := by
    intro hsame
    obtain rfl := Option.some.inj (hsame.symm.trans hs')
    rw [hnone] at hid
    cases hid
  -- Of all moves only one gives a record a key.
  cases h with
  | steady hsteady => exact (hunchanged ((hsteady.standing handle).trans hs)).elim
  | exhaust => exact (hunchanged hs).elim
  | @giveKey other model sequence current _ given hnew _ hsequence hcurrent hgiven =>
      have hstanding := standing_giveKey (before.advance sequence (current + 1)) hnew model.name given
        handle
      by_cases hsame : other = handle
      · subst hsame
        rw [if_pos rfl, hs'] at hstanding
        cases hstanding
        cases hid
        obtain rfl := Option.some.inj (hs.symm.trans hnew)
        exact ⟨sequence, current, hsequence, hcurrent, by omega⟩
      · rw [if_neg hsame] at hstanding
        exact (hunchanged (hstanding.trans hs)).elim
  | enter | adopt =>
      refine (hunchanged ?_).elim
      rw [standing_appendAs, if_neg (Nat.ne_of_lt (lt_of_standing hs)), hs]
  | withdraw other =>
      rw [standing_withdraw, hs] at hs'
      cases hs'
      have hkept : s.id = some id := by
        by_cases hsame : other = handle
        · simpa only [if_pos hsame] using hid
        · simpa only [if_neg hsame] using hid
      rw [hnone] at hkept
      cases hkept
  | settle =>
      rw [standing_settle, hs] at hs'
      cases hs'
      have hkept : s.id = some id := hid
      rw [hnone] at hkept
      cases hkept

/-- A key that is given on the way is greater than all that its sequence had given at the start. -/
theorem reaches_key_drawn (h : before.Reaches env terms after) (hs : before.standing handle = some s)
    (hnone : s.id = none) (hs' : after.standing handle = some s') (hid : s'.id = some id) :
    ∃ sequence value, s.model.sequence? = some sequence ∧
      before.sequenceValue env sequence = .ok value ∧ (value : Int) < id.toInt := by
  induction h generalizing s' with
  | refl =>
      obtain rfl := Option.some.inj (hs.symm.trans hs')
      rw [hnone] at hid
      cases hid
  | tail hbefore hmove ih =>
      obtain ⟨middle, hmiddle, hmodel, -⟩ := reaches_carries hbefore hs
      cases hkey : middle.id with
      | some given =>
          -- The key was given earlier on the way.
          obtain ⟨last, hlast, -, hkept⟩ := hmove.carries hmiddle
          obtain rfl := Option.some.inj (hlast.symm.trans hs')
          obtain rfl := Option.some.inj ((hkept given hkey).symm.trans hid)
          exact ih hmiddle hkey
      | none =>
          obtain ⟨sequence, value, hsequence, hvalue, hlt⟩ := hmove.key_drawn hmiddle hkey hs' hid
          obtain ⟨old, hold, hle⟩ := reaches_advances hbefore sequence value hvalue
          exact ⟨sequence, old, hmodel ▸ hsequence, hold, by omega⟩

/-! ## Keys that are given -/

/-- A record that had no key has one now. -/
def GivesKey (before after : Scope) (handle : Handle) (model : Model) (id : Int64) : Prop :=
  ∃ old new, before.entries[handle]? = some old ∧ old.record.id = none ∧
    after.entries[handle]? = some new ∧ new.record.model = model ∧ new.record.id = some id

/-- A key that a record got is new: it is positive, greater than the numbers of all rows that were
visible, and the key of no other record of its model. -/
structure NewKey (env : Environment) (before after : Scope) (handle : Handle) (model : Model)
    (id : Int64) : Prop where
  positive : 1 ≤ id.toInt
  above : ∀ number row, before.visibleRow env model.tableName number = .ok (some row) →
    (number.toNat : Int) < id.toInt
  own : ∀ (other : Handle) (entry : Entry), after.entries[other]? = some entry → other ≠ handle →
    entry.record.model = model → entry.record.id ≠ some id

namespace Intact

variable (hregistry : env.registry.Consistent) (hterms : terms.grounded)
  (h : before.Intact env terms deleted) (hreaches : before.Reaches env terms after)

include hterms h hreaches

/-- A key that is given is greater than the numbers of all visible rows. -/
theorem lt_of_givesKey (hgives : before.GivesKey after handle model id) {number : UInt64}
    {row : StoredRow} (hrow : before.visibleRow env model.tableName number = .ok (some row)) :
    (number.toNat : Int) < id.toInt := by
  obtain ⟨old, new, hold, hnone, hnew, rfl, hid⟩ := hgives
  have hs := standing_of_entry hold
  have hs' := standing_of_entry hnew
  obtain ⟨carried, hcarried, hmodel, -⟩ := reaches_carries hreaches hs
  obtain rfl := Option.some.inj (hcarried.symm.trans hs')
  obtain ⟨sequence, value, hsequence, hvalue, hlt⟩ := reaches_key_drawn hreaches hs hnone hs' hid
  have hsame : new.record.model = old.record.model := hmodel
  rw [hsame] at hrow
  have hle := ((h.keyed hterms).rows _ (h.rooted.registered handle _ hs) number row hrow).2 sequence value
    hsequence hvalue
  omega

/-- A record that is not stored yet has no row. -/
theorem no_row_of_pending {old new : Entry} (hold : before.entries[handle]? = some old)
    (hstate : old.state = .pending) (hnew : after.entries[handle]? = some new)
    (hid : new.record.id = some id) (row : StoredRow) :
    before.visibleRow env new.record.model.tableName id.toUInt64 ≠ .ok (some row) := by
  have hs := standing_of_entry hold
  have hs' := standing_of_entry hnew
  obtain ⟨carried, hcarried, hmodel, hkept⟩ := reaches_carries hreaches hs
  obtain rfl := Option.some.inj (hcarried.symm.trans hs')
  intro hrow
  cases hkey : old.record.id with
  | none =>
      have hlt := h.lt_of_givesKey hterms hreaches ⟨old, new, hold, hkey, hnew, rfl, hid⟩ hrow
      have hpositive : 0 ≤ id.toInt := by omega
      have hnat := toNat_toUInt64 hpositive
      omega
  | some key =>
      have hsame : key = id := Option.some.inj ((hkept key hkey).symm.trans hid)
      subst hsame
      have hmodel' : new.record.model = old.record.model := hmodel
      rw [hmodel'] at hrow
      exact ((h.keyed hterms).records handle _ hs).absent (Or.inl hstate) key row hkey hrow

end Intact

/-- Keys are positive, and each is that of one record. -/
theorem Keyed.id_unique (h : scope.Keyed env) {entry other : Entry} {place : Handle}
    (hentry : scope.entries[handle]? = some entry) (hother : scope.entries[place]? = some other)
    (hne : place ≠ handle) (hmodel : other.record.model = entry.record.model)
    (hid : entry.record.id = some id) : other.record.id ≠ some id := by
  intro hsame
  have hidentified := ((h.records handle _ (standing_of_entry hentry)).identified id hid).2
  have hidentified' := ((h.records place _ (standing_of_entry hother)).identified id hsame).2
  have hname : other.standing.model = entry.standing.model := hmodel
  rw [hname, hidentified] at hidentified'
  exact hne (Option.some.inj hidentified').symm

/-! ## First keys -/

/-- After a flush every record is stored or gone. -/
theorem flush_settles (env : Environment) (scope : Scope) :
    (flush env).Ends scope (fun _ after => ∀ (handle : Handle) (entry : Entry), after.entries[handle]? = some entry →
      entry.state = .persistent ∨ entry.state = .removed) (fun _ => True) := by
  refine (flush_rests env scope).mono ?_ fun _ _ => trivial
  intro _ after hrest handle entry hentry
  exact (hrest.settled handle entry hentry).imp_left And.left

/-- When a table has rows and its sequence started in the scope, a record has the first key. -/
theorem Intact.exists_first (h : scope.Intact env terms deleted) (hterms : terms.grounded)
    (hmodel : model ∈ env.registry.models) {sequence : String}
    (hsequence : model.sequence? = some sequence)
    (hzero : env.storage.sequenceValue sequence = .ok 0) {number : UInt64} {row : StoredRow}
    (hrow : scope.visibleRow env model.tableName number = .ok (some row)) :
    ∃ (handle : Handle) (entry : Entry), scope.entries[handle]? = some entry ∧
      entry.record.model = model ∧ entry.record.id = some 1 := by
  obtain ⟨hpositive, hnumbered⟩ := (h.keyed hterms).rows model hmodel number row hrow
  cases hfind : scope.sequences.find? sequence with
  | none =>
      -- The scope has drawn no number, so no row can have one.
      have hvalue : scope.sequenceValue env sequence = .ok 0 := by
        unfold sequenceValue
        rw [hfind]
        exact hzero
      have hle := hnumbered sequence 0 hsequence hvalue
      omega
  | some n =>
      obtain ⟨handle, s, hs, hsame, hid⟩ := h.drawn.started model hmodel sequence n hsequence hfind hzero
      obtain ⟨entry, hentry, rfl⟩ := Option.map_eq_some_iff.1 hs
      exact ⟨handle, entry, hentry, hsame, hid⟩

end Scope

namespace Course

variable {registry : Registry} {terms : Terms} {course : Course}

/-- A deed goes on with the scope that it leaves. -/
theorem step_deed {deed : Deed} {scope : Scope} (hscope : course.db.scope = some scope)
    {kept : Scope → Prop}
    (hends : (deed.perform course.db.environment).Ends { scope with supply := course.db.supply }
      (fun _ => kept) kept) :
    ∃ after, course.step (.deed deed) = { course with db := course.db.resume after } ∧ kept after := by
  obtain ⟨after, hrun, hafter⟩ := Database.run_keeps hscope (fun env => deed.perform env) hends
  exact ⟨after, congrArg (fun db => { course with db }) hrun, hafter⟩

/-- A deed takes the open scope along moves. -/
theorem Intact.deed_reaches (h : course.Intact registry terms) (hregistry : registry.Consistent)
    {deed : Deed} (hallows : course.Allows terms (.deed deed)) {before after : Scope}
    (hbefore : course.db.scope = some before)
    (hafter : (course.step (.deed deed)).db.scope = some after) :
    ({ before with supply := course.db.supply } : Scope).Reaches course.db.environment terms after := by
  have hends := deed.perform_reaches (h.registry_consistent hregistry) hbefore
    (h.opened before hbefore).rooted hallows
  have hrun : (course.db.run fun env => deed.perform env).2.scope = some after := hafter
  obtain ⟨last, hdone, hlast⟩ := Database.run_keeps hbefore (fun env => deed.perform env) hends
  rw [hdone] at hrun
  cases hrun
  exact hlast

/-- Deeds take the open scope along moves, one after the other. -/
theorem Intact.deeds_reach (h : course.Intact registry terms) (hregistry : registry.Consistent)
    (hcount : ∀ model ∈ registry.models, model.columns.length < 4294967296) {deeds : List Deed}
    (hmeets : course.Meets terms (deeds.map .deed)) {before : Scope}
    (hbefore : course.db.scope = some before) :
    ∃ after, ((deeds.map .deed).foldl Course.step course).db.scope = some after ∧
      ((deeds.map .deed).foldl Course.step course).db.environment = course.db.environment ∧
      ({ before with supply := course.db.supply } : Scope).Reaches course.db.environment terms after := by
  let start : Scope := { before with supply := course.db.supply }
  let reached (later : Course) : Prop := ∃ after, later.db.scope = some after ∧
    later.db.environment = course.db.environment ∧ start.Reaches course.db.environment terms after
  have hstart : reached course :=
    ⟨before, hbefore, rfl, .single (.steady (Scope.steady_supply _ start before.supply))⟩
  refine h.keeps_deeds hregistry hcount reached (fun _ _ => True) ?_ hmeets
    (throughout_of_forall (fun _ _ _ => trivial) course) hstart
  rintro later deed hlater hallows - ⟨middle, hmiddle, henvironment, hreaches⟩
  obtain ⟨after, hstep, hreached⟩ := step_deed hmiddle (deed.perform_reaches
    (hlater.registry_consistent hregistry) hmiddle (hlater.opened middle hmiddle).rooted hallows)
  rw [hstep]
  refine ⟨after, rfl, henvironment, ?_⟩
  rw [henvironment] at hreached
  exact (hreaches.tail (.steady (Scope.steady_supply _ middle later.db.supply))).trans hreached

/-- The first key of a table that starts anew has its row when the scope was committed, unless the record
that had it was deleted. -/
theorem Intact.first_row (h : course.Intact registry terms) (hregistry : registry.Consistent)
    (hcount : ∀ model ∈ registry.models, model.columns.length < 4294967296)
    (hterms : terms.grounded) {after : Database} (hcommit : course.db.commit = (.ok (), after))
    {model : Model} (hmodel : model ∈ registry.models) {sequence : String}
    (hsequence : model.sequence? = some sequence)
    (hzero : course.db.storage.sequenceValue sequence = .ok 0) {number : UInt64} {row : StoredRow}
    (hrow : after.storage.row? model.tableName number = .ok (some row)) :
    (∃ row, after.storage.row? model.tableName 1 = .ok (some row)) ∨
      (¬terms.undeleted ∧ ∃ (flushed : Scope) (handle : Handle) (entry : Entry),
        (course.db.run Scope.flush).2.scope = some flushed ∧ flushed.entries[handle]? = some entry ∧
        entry.record.model = model ∧ entry.record.id = some 1 ∧ entry.state = .removed) := by
  rcases course.db.commit_cases with ⟨_, _, hfailed, -⟩ |
    ⟨scope, flushed, _, hdone, -, hscope, hflush, -, -, happly⟩
  · cases hcommit.symm.trans hfailed
  · cases hcommit.symm.trans hdone
    have hresumed : (course.db.run Scope.flush).2 = course.db.resume flushed := by
      rw [Database.run_of_ok hscope hflush]
    rw [hresumed]
    have hflushed := h.flushed hregistry hcount hscope hflush
    have hwritten : flushed.WrittenTo course.db.environment after.storage :=
      Scope.writtenTo_of_apply happly
    rw [hwritten.row] at hrow
    obtain ⟨handle, entry, hentry, hsame, hid⟩ :=
      hflushed.exists_first hterms (h.mem_models hmodel) hsequence hzero hrow
    have hrecord := (hflushed.keyed hterms).records handle _ (Scope.standing_of_entry hentry)
    -- After the flush the record with the first key is stored and has its row, or it was removed.
    rcases (Scope.flush_settles course.db.environment _).of_ok hflush handle entry hentry with
      hstate | hstate
    · obtain ⟨id, first, hid', hfirst⟩ := hrecord.present (Or.inl hstate)
      obtain rfl := Option.some.inj (hid.symm.trans hid')
      have hmodel' : entry.standing.model = model := hsame
      rw [hmodel'] at hfirst
      exact Or.inl ⟨first, (hwritten.row _ _).trans hfirst⟩
    · refine Or.inr ⟨?_, flushed, handle, entry, rfl, hentry, hsame, hid, hstate⟩
      intro hundeleted
      have hlive := (hflushed.lasting hundeleted).1.live handle _ (Scope.standing_of_entry hentry)
      have hgone : entry.standing.state = .removed := hstate
      rw [hgone] at hlive
      cases hlive

end Course

/-- Keys are fresh.  Take a database to which nothing has happened and any course of events in which the
records that come from outside are of its models and, if they have a key, have their rows.

Whatever is done next in the open scope, a key that it gives, by a flush that succeeds or fails, is
positive, greater than the numbers of all rows that were visible, and the key of no other record of the
model.  A record that was not stored before has no row before, so what is inserted takes the place of
nothing.

When a scope is committed while a sequence has given no number to the storage, and the table then has
rows, it has a row one, unless the record with the first key was deleted in that scope.  If nothing is ever
deleted it has one.  After the schema was dropped the tables are empty and their sequences have given no
number. -/
theorem given_keys_are_fresh {db : Database} (hfresh : db.Fresh) {terms : Terms}
    (hgrounded : terms.grounded) {events : List Event} (hmeets : Course.Meets terms { db } events) :
    let course := events.foldl Course.step { db }
    let env := course.db.environment
    (∀ deed, course.Allows terms (.deed deed) → ∀ before after : Scope,
      course.db.scope = some before → (course.step (.deed deed)).db.scope = some after →
        (∀ handle model id, before.GivesKey after handle model id →
          Scope.NewKey env before after handle model id) ∧
        ∀ (handle : Handle) old new id, before.entries[handle]? = some old → old.state = .pending →
          after.entries[handle]? = some new → new.record.id = some id →
            ∀ row, before.visibleRow env new.record.model.tableName id.toUInt64 ≠ .ok (some row)) ∧
    (∀ after, course.db.commit = (.ok (), after) → ∀ model ∈ db.registry.models, ∀ sequence,
      model.sequence? = some sequence → course.db.storage.sequenceValue sequence = .ok 0 →
        (∃ number row, after.storage.row? model.tableName number = .ok (some row)) →
          (∃ row, after.storage.row? model.tableName 1 = .ok (some row)) ∨
          (¬terms.undeleted ∧ ∃ (flushed : Scope) (handle : Handle) (entry : Entry),
            (course.db.run Scope.flush).2.scope = some flushed ∧
            flushed.entries[handle]? = some entry ∧ entry.record.model = model ∧
            entry.record.id = some 1 ∧ entry.state = .removed)) ∧
    (∀ after, course.db.scope = none → course.db.dropSchema = (.ok (), after) →
      ∀ model ∈ db.registry.models,
        (∀ number row, after.storage.row? model.tableName number ≠ .ok (some row)) ∧
        ∀ sequence, model.sequence? = some sequence → after.storage.sequenceValue sequence = .ok 0) := by
  intro course env
  have h : course.Intact db.registry terms := hfresh.intact hmeets
  have hconsistent : env.registry.Consistent := h.registry_consistent hfresh.consistent
  refine ⟨?_, ?_, ?_⟩
  · intro deed hallows before after hbefore hafter
    have hopened := h.opened before hbefore
    have hreaches := h.deed_reaches hfresh.consistent hallows hbefore hafter
    have hlast := (hopened.reaches hconsistent (h.counted hfresh.counted) hreaches).keyed hgrounded
    constructor
    · intro handle model id hgives
      -- The key comes after all that the sequence has given, and every row has one of these.
      have habove : ∀ number row, before.visibleRow env model.tableName number = .ok (some row) →
          (number.toNat : Int) < id.toInt := fun _ _ hrow =>
        hopened.lt_of_givesKey hgrounded hreaches hgives hrow
      obtain ⟨_, new, -, -, hnew, rfl, hid⟩ := hgives
      exact {
        positive := ((hlast.records handle _ (Scope.standing_of_entry hnew)).identified id hid).1
        above := habove
        own := fun other entry hentry hne hmodel => hlast.id_unique hnew hentry hne hmodel hid }
    · intro handle old new id hold hstate hnew hid row
      exact hopened.no_row_of_pending hgrounded hreaches hold hstate hnew hid row
  · rintro after hcommit model hmodel sequence hsequence hzero ⟨number, row, hrow⟩
    exact h.first_row hfresh.consistent hfresh.counted hgrounded hcommit hmodel hsequence hzero hrow
  · intro after _ hdrop model hmodel
    obtain ⟨-, -, contents, hread, hvacant⟩ := h.vacant_dropSchema hdrop
    obtain ⟨_, -, hcompiled⟩ := hfresh.consistent.mem_compiled hmodel
    constructor
    · intro number row hrow
      obtain ⟨later, hlater, hfound⟩ := Storage.row?_eq_ok.1 hrow
      obtain rfl := Except.ok.inj (hread.symm.trans hlater)
      rw [(hvacant model hmodel).empty] at hfound
      cases hfound
    · intro sequence hsequence
      obtain rfl := Option.some.inj (hcompiled.sequence?_eq.symm.trans hsequence)
      exact Storage.sequenceValue_eq_ok.2 ⟨contents, hread, (hvacant model hmodel).unused⟩

/-! ## Notes that are numbered -/

/-- Notes without titles. -/
def plainNotes : Database := .inMemory [
  .register (.declaration { name := "Note", tableName := some "notes", relatedName := some "notes" })]

theorem plainNotes_fresh : plainNotes.Fresh := by
  refine Database.fresh_inMemory ?_ (by decide +kernel)
  simp [Registry.Call.Admissible, Candidate.Admissible, Blueprint.Composed.base]

/-- A note is made and flushed. -/
def noteIsNumbered : List Event := [
  .createSchema, .openScope, .deed (.act (.create "Note")), .deed (.act .flush)]

/-- Another note comes from outside. -/
def noteIsAdded (note : Model) : List Event := noteIsNumbered ++ [.deed (.add (.new note []))]

/-- The note that comes from outside gets the second key, and the first note has its row when the scope is
committed. -/
theorem given_keys_are_fresh_added :
    ∃ note ∈ plainNotes.registry.models, ∃ before after : Scope,
      let course := (noteIsAdded note).foldl Course.step { db := plainNotes }
      course.db.scope = some before ∧ (course.step (.deed (.act .flush))).db.scope = some after ∧
        before.GivesKey after 1 note 2 ∧
        Scope.NewKey course.db.environment before after 1 note 2 ∧
        ∃ row, course.db.commit.2.storage.row? "notes" 1 = .ok (some row) := by
  let terms : Terms := { grounded := True, undeleted := True }
  have hnumbered : Course.Meets terms { db := plainNotes } noteIsNumbered :=
    Course.meets_of_brings_nothing (by simp [noteIsNumbered]) (by simp [noteIsNumbered]) _
  obtain ⟨note, hnote, ⟨hlength, htable, sequence, hsequence, hzero⟩, ⟨before, hbefore, after, hafter,
      ⟨old, hold, hnone⟩, new, hnew, hid⟩, hcommit, hrow⟩ :
      ∃ note ∈ plainNotes.registry.models,
        let course := (noteIsAdded note).foldl Course.step { db := plainNotes }
        (plainNotes.registry.models.length = 1 ∧ note.tableName = "notes" ∧
          ∃ sequence ∈ note.sequence?, course.db.storage.sequenceValue sequence = .ok 0) ∧
        (∃ before ∈ course.db.scope, ∃ after ∈ (course.step (.deed (.act .flush))).db.scope,
          (∃ old ∈ before.entries[1]?, old.record.id = none) ∧
            ∃ new ∈ after.entries[1]?, new.record.id = some 2) ∧
        course.db.commit.1 = .ok () ∧
        (course.db.commit.2.storage.row? "notes" 2).toOption.join.isSome := by
    decide +kernel
  have hmeets : Course.Meets terms { db := plainNotes } (noteIsAdded note) := by
    have hintact := plainNotes_fresh.intact hnumbered
    refine hnumbered.append ⟨⟨?_, ?_, ?_⟩, trivial⟩
    · rintro record ⟨⟩
      exact hintact.mem_models hnote
    · rintro - record ⟨⟩ id ⟨⟩
    · rintro - handle ⟨⟩
  obtain ⟨hdeeds, hcommits, -⟩ := given_keys_are_fresh plainNotes_fresh trivial hmeets
  have hintact := plainNotes_fresh.intact hmeets
  refine ⟨note, hnote, before, after, ?_⟩
  -- From here on the course is not computed any more.
  generalize (noteIsAdded note).foldl Course.step { db := plainNotes } = course at *
  have hflush : course.Allows terms (.deed (.act .flush)) := by
    refine ⟨?_, ?_, ?_⟩
    · rintro record ⟨⟩
    · rintro - record ⟨⟩
    · rintro - handle ⟨⟩
  have hgives : before.GivesKey after 1 note 2 := by
    refine ⟨old, new, hold, hnone, hnew, ?_, hid⟩
    have hflushed := hintact.step plainNotes_fresh.consistent plainNotes_fresh.counted hflush
    have hrecord : (course.step (.deed (.act .flush))).record? 1 = some new.record :=
      Option.bind_eq_some_iff.2 ⟨after, hafter, Option.bind_eq_some_iff.2 ⟨new, hnew, rfl⟩⟩
    -- There is only one model.
    obtain ⟨only, honly⟩ := List.length_eq_one_iff.1 hlength
    have hnew' := hflushed.record?_registered hrecord
    rw [honly, List.mem_singleton] at hnote hnew'
    rw [hnote, hnew']
  refine ⟨hbefore, hafter, hgives, (hdeeds _ hflush before after hbefore hafter).1 1 note 2 hgives, ?_⟩
  obtain ⟨row, hrow⟩ := Option.isSome_iff_exists.1 hrow
  have hdone : course.db.commit = (.ok (), course.db.commit.2) := Prod.ext hcommit rfl
  rcases hcommits _ hdone note hnote sequence hsequence hzero
    ⟨2, row, htable ▸ join_toOption_eq_some.1 hrow⟩ with hfirst | ⟨hdeleting, -⟩
  · exact htable ▸ hfirst
  · exact absurd trivial hdeleting

/-- The note is deleted before it is committed, and another one is made. -/
def noteIsReplaced : List Event :=
  noteIsNumbered ++ [.deed (.act (.delete 0)), .deed (.act (.create "Note")), .commit]

/-- The first key may be lost: the note that had it was deleted in the scope in which it was made, and the
first row that is committed has the second. -/
theorem first_key_may_be_lost :
    let course := noteIsReplaced.foldl Course.step { db := plainNotes }
    course.db.storage.row? "notes" 1 = .ok none ∧
      (course.cell? "notes" 2 "id").bind Value.asInteger? = some 2 := by
  decide +kernel

end RecordStore
