import RecordStore.Proofs.Scope.Underway

/-!
# Links that a flush fills

A flush fills links in the order of their handles and columns, and forgets all of them before it fills the
first.  So a flush that fails has left all links as they were, or has filled every link that comes before the
first one that cannot be filled (`Scope.flush_fills`); a link that is neither filled nor kept is lost.
-/

namespace RecordStore

namespace Scope

variable {env : Environment} {start scope before after : Scope} {handle target : Handle}
  {key : Handle × String} {id : Int64} {name : String}

/-- The links up to a key lead to records that are to stay. -/
def Fillable (scope : Scope) (key : Handle × String) : Prop :=
  ∀ other target, scope.links.find? other = some target → KeyOrder.lt key other = false →
    ∃ entry, scope.entries[target]? = some entry ∧ entry.state.isLive = true

/-- A column holds the key of a record that is to stay, and is marked. -/
def LinkFilled (scope : Scope) (key : Handle × String) (target : Handle) : Prop :=
  ∃ entry id, scope.entries[key.1]? = some entry ∧ scope.linkedId? target = some id ∧
    entry.record.values.find? key.2 = some (.integer id) ∧ entry.record.isChanged key.2 = true

/-- The links are those that there were, or each one up to which all can be filled has been filled. -/
def SavesLinks (before after : Scope) : Prop :=
  after.links = before.links ∨ ∀ key target, before.links.find? key = some target →
    before.Fillable key → after.LinkFilled key target

/-! ## All new records get keys -/

theorem hasKey_giveKey (scope : Scope) (model : String) (id : Int64) (other : Handle) :
    (other = handle ∨ scope.HasKey other) → (scope.giveKey handle model id).HasKey other := by
  intro h new hnew hstate hnone
  rw [getElem?_giveKey] at hnew
  obtain ⟨entry, hentry, rfl⟩ := Option.map_eq_some_iff.1 hnew
  by_cases hsame : handle = other
  · simp [hsame, Record.assignId_id] at hnone
  · simp only [if_neg hsame] at hstate hnone
    exact (h.resolve_left (Ne.symm hsame)) entry hentry hstate hnone

/-- When all keys are given, every new record has one. -/
theorem assignIds_gives (scope : Scope) (env : Environment) :
    (assignIds env).Ends scope (fun _ after => ∀ handle ∈ scope.handles, after.HasKey handle)
      (fun _ => True) := by
  have hstep : ∀ handle ∈ scope.handles, ∀ middle : Scope, True → (assignId env handle).Ends middle
      (fun _ after => True ∧ after.HasKey handle ∧
        ∀ other ∈ scope.handles, middle.HasKey other → after.HasKey other)
      (fun after => True ∧ True ∧
        ∀ other ∈ scope.handles, middle.HasKey other → after.HasKey other) := by
    intro handle _ middle _
    have hkept : ∀ (after : Scope) (other : Handle), after.entries = middle.entries →
        middle.HasKey other → after.HasKey other := by
      intro after other hsame h found hfound
      exact h found (hsame ▸ hfound)
    refine (assignId_outcome middle env handle).mono ?_ ?_
    · rintro _ _ (hkey | ⟨entry, asked, sequence, current, id, -, -, hasked, -, -, -⟩)
      · exact ⟨trivial, hkey, fun _ _ h => h⟩
      · let advanced := asked.advance sequence (current + 1)
        refine ⟨trivial, hasKey_giveKey advanced _ id handle (Or.inl rfl), ?_⟩
        intro other _ h
        exact hasKey_giveKey advanced _ id other (Or.inr (hkept _ other hasked.same.entries h))
    · intro after hrefused
      exact ⟨trivial, trivial, fun other _ h => hkept after other hrefused.same.entries h⟩
  refine ScopeM.ends_get_bind ((ScopeM.ends_forM_each trivial hstep).mono ?_ fun _ _ => trivial)
  exact fun _ _ hdone => hdone.2

/-! ## Filling links -/

/-- Every record that is to stay has a key. -/
def LiveKeyed (scope : Scope) : Prop :=
  ∀ (handle : Handle) (entry : Entry), scope.entries[handle]? = some entry →
    entry.state.isLive = true → entry.record.id ≠ none

theorem LiveKeyed.modifyRecord (h : scope.LiveKeyed) {f : Record → Record}
    (hf : ∀ record, (f record).id = record.id) : (scope.modifyRecord handle f).LiveKeyed := by
  intro other new hnew hlive
  rw [getElem?_modifyRecord] at hnew
  obtain ⟨entry, hentry, rfl⟩ := Option.map_eq_some_iff.1 hnew
  by_cases hsame : handle = other
  · simp only [if_pos hsame] at hlive ⊢
    simpa [hf] using h other entry hentry hlive
  · simp only [if_neg hsame] at hlive ⊢
    exact h other entry hentry hlive

theorem LiveKeyed.of_steady (h : before.LiveKeyed) (hsteady : before.Steady env after) :
    after.LiveKeyed := by
  intro handle entry hentry hlive
  obtain ⟨old, hold, hsame⟩ := Option.map_eq_some_iff.1
    ((hsteady.standing handle).symm.trans (standing_of_entry hentry))
  rw [show entry.record.id = old.record.id from (congrArg Standing.id hsame).symm]
  exact h handle old hold ((congrArg (·.state.isLive) hsame).trans hlive)

/-- A filled link stays filled while its column keeps its mark and its value. -/
theorem LinkFilled.transfer (h : before.LinkFilled key target) (hlinked : before.StaysLinked after)
    (hkept : ∀ entry, before.entries[key.1]? = some entry → entry.record.isChanged key.2 = true →
      ∃ new, after.entries[key.1]? = some new ∧ new.record.isChanged key.2 = true ∧
        new.record.values.find? key.2 = entry.record.values.find? key.2) : after.LinkFilled key target := by
  obtain ⟨entry, id, hentry, hid, hvalue, hmarked⟩ := h
  obtain ⟨new, hnew, hmarked', hvalue'⟩ := hkept entry hentry hmarked
  exact ⟨new, id, hnew, hlinked target id hid, hvalue'.trans hvalue, hmarked'⟩

theorem LinkFilled.imaged (h : before.LinkFilled key target) (himaged : before.Imaged after) :
    after.LinkFilled key target := by
  refine h.transfer himaged.staysLinked ?_
  intro entry hentry hmarked
  obtain ⟨record, hrecord, -, -, hchanged, hvalues⟩ := himaged.entries key.1 entry hentry
  -- What is marked takes no default.
  have hdefault : ¬entry.record.TakesDefault key.2 := fun ⟨hunmarked, _⟩ => by
    simp [hmarked] at hunmarked
  exact ⟨_, hrecord, by simpa [Record.isChanged, hchanged] using hmarked, hvalues key.2 hdefault⟩

/-- One more link is filled, and no other is touched. -/
theorem linkFilled_fillLink {entry : Entry} (hentry : scope.entries[handle]? = some entry)
    (hid : scope.linkedId? target = some id) (name : String) :
    let filling := scope.modifyRecord handle fun record =>
      (record.putValue name (.integer id)).markChanged name
    filling.LinkFilled (handle, name) target ∧
      ∀ key other, key ≠ (handle, name) → scope.LinkFilled key other → filling.LinkFilled key other := by
  intro filling
  have hlinked : scope.StaysLinked filling := staysLinked_modifyRecord fun _ _ _ hkey => hkey
  constructor
  · let record := (entry.record.putValue name (.integer id)).markChanged name
    have hfilled : filling.entries[handle]? = some { entry with record } := by
      rw [getElem?_modifyRecord, hentry, Option.map_some, if_pos rfl]
    refine ⟨_, id, hfilled, hlinked target id hid, ?_, ?_⟩
    · exact (Record.find?_putValue ..).trans (if_pos rfl)
    · exact (Record.isChanged_markChanged ..).trans (if_pos rfl)
  · rintro ⟨place, column⟩ other hne h
    refine h.transfer hlinked ?_
    intro entry hentry hmarked
    rw [getElem?_modifyRecord, hentry]
    by_cases hsame : handle = place
    · subst hsame
      have hcolumn : column ≠ name := fun h => hne (h ▸ rfl)
      refine ⟨_, by rw [Option.map_some, if_pos rfl], ?_, ?_⟩
      · exact ((Record.isChanged_markChanged ..).trans (if_neg hcolumn)).trans hmarked
      · exact (Record.find?_putValue ..).trans (if_neg hcolumn)
    · exact ⟨entry, by simp [hsame], hmarked, rfl⟩

/-- Links are filled up to the first one that leads to a record that goes away. -/
theorem resolveLinks_fills (hstart : start.Orderly) (h : start.Underway scope)
    (hlinks : scope.links = start.links) (hkeyed : scope.LiveKeyed) :
    resolveLinks.Ends scope
      (fun _ after => ∀ key target, start.links.find? key = some target → after.LinkFilled key target)
      (fun after => ∀ key target, start.links.find? key = some target → start.Fillable key →
        after.LinkFilled key target) := by
  unfold resolveLinks
  refine ScopeM.ends_get_bind (ScopeM.ends_set_bind ?_)
  rw [hlinks]
  have hforget : start.Underway { scope with links := ∅ } :=
    h.of_same rfl (fun _ _ hlink => by cases hlink) rfl
  have hloop : (start.links.toList.forM resolveLink).Ends { scope with links := ∅ }
      (fun _ after => (start.Underway after ∧ after.LiveKeyed) ∧
        ∀ link ∈ start.links.toList, after.LinkFilled link.1 link.2)
      (fun after => (start.Underway after ∧ after.LiveKeyed) ∧ ∃ done link rest,
        start.links.toList = done ++ link :: rest ∧ after.linkedId? link.2 = none ∧
        ∀ other ∈ done, after.LinkFilled other.1 other.2) := by
    have hkeyed' : ({ scope with links := ∅ } : Scope).LiveKeyed := hkeyed
    refine ScopeM.ends_forM_each ⟨hforget, hkeyed'⟩ ?_
    rintro ⟨⟨handle, name⟩, target⟩ hmem filling ⟨hunderway, hfilling⟩
    have hlink := SortedMap.find?_eq_some_iff.2 hmem
    refine (resolveLink_cases filling handle name target).mono ?_ ?_
    · rintro _ after ⟨id, hid, rfl⟩
      obtain ⟨entry, -, hentry, -⟩ := hstart.links handle name target hlink
      obtain ⟨record, hrecord, -⟩ := hunderway.entries handle entry hentry
      obtain ⟨hnew, hothers⟩ := linkFilled_fillLink hrecord hid name
      refine ⟨⟨hunderway.fillLink hlink hid, ?_⟩, hnew, ?_⟩
      · exact hfilling.modifyRecord fun _ => rfl
      · rintro ⟨other, found⟩ hother hfilled
        by_cases hsame : other = (handle, name)
        · -- A key has one link.
          subst hsame
          obtain rfl := Option.some.inj (hlink.symm.trans (SortedMap.find?_eq_some_iff.2 hother))
          exact hnew
        · exact hothers other found hsame hfilled
    · rintro _ ⟨rfl, hnone⟩
      exact ⟨⟨hunderway, hfilling⟩, hnone, fun _ _ hfilled => hfilled⟩
  refine hloop.mono ?_ ?_
  · rintro _ after ⟨-, hfilled⟩ key target hfind
    exact hfilled (key, target) (SortedMap.find?_eq_some_iff.1 hfind)
  · rintro after ⟨⟨hunderway, hafter⟩, done, link, rest, hsplit, hstuck, hfilled⟩ key target hfind
    intro hfillable
    have hmem := SortedMap.find?_eq_some_iff.1 hfind
    rw [hsplit] at hmem
    rcases List.mem_append.1 hmem with hdone | hlater
    · exact hfilled (key, target) hdone
    · -- The link at which the flush stops does not come after the key, so its target is to stay.
      have hsorted := start.links.sorted
      rw [hsplit] at hsorted
      have hbefore : KeyOrder.lt key link.1 = false := hsorted.lt_eq_false_of_mem hlater
      have hlink : start.links.find? link.1 = some link.2 :=
        SortedMap.find?_eq_some_iff.2 (hsplit ▸ by simp)
      obtain ⟨entry, hentry, hlive⟩ := hfillable link.1 link.2 hlink hbefore
      obtain ⟨record, hrecord, -⟩ := hunderway.entries link.2 entry hentry
      obtain ⟨id, hid⟩ := Option.ne_none_iff_exists'.1 (hafter link.2 _ hrecord hlive)
      rw [linkedId?_eq_some.2 ⟨_, hrecord, hlive, hid⟩] at hstuck
      cases hstuck

/-! ## Flushing -/

section

variable (hregistry : env.registry.Consistent) (hrooted : start.Rooted env) (hstart : start.Orderly)

include hregistry hrooted hstart

/-- After keys were given, every record that is to stay has one. -/
theorem assignIds_liveKeyed :
    (assignIds env).Ends start
      (fun _ after => (start.Underway after ∧ after.links = start.links) ∧ after.LiveKeyed)
      (fun after => after.links = start.links) := by
  have hunderway := assignIds_underway hregistry hrooted hstart start ⟨.refl start, rfl⟩
  refine (hunderway.and (assignIds_gives start env)).mono ?_ fun _ hfailed => hfailed.1.2
  rintro _ after ⟨⟨hafter, hlinks⟩, hgiven⟩
  refine ⟨⟨hafter, hlinks⟩, ?_⟩
  intro handle new hnew hlive
  obtain ⟨old, hold, hstate, -, hid, -⟩ := hafter.entry_back hnew
  cases hcase : new.state with
  | pending =>
      exact hgiven handle (List.mem_range.2 (List.getElem?_eq_some_iff.1 hold).1) new hnew hcase
  | persistent =>
      obtain ⟨id, hkey⟩ := Option.ne_none_iff_exists'.1
        (hrooted.stored handle _ (standing_of_entry hold) (hstate.symm.trans hcase))
      exact Option.ne_none_iff_exists'.2 ⟨id, hid id hkey⟩
  | deleted | removed => simp [hcase, Lifecycle.isLive] at hlive

/-- A flush that fails has not taken the links out, or has filled those that come before the first one that
cannot be filled. -/
theorem flush_fills :
    (flush env).Ends start (fun _ _ => True) start.SavesLinks := by
  unfold flush
  refine ScopeM.ends_bind ((assignIds_liveKeyed hregistry hrooted hstart).mono
    (fun _ _ hdone => hdone) fun _ hfailed => Or.inl hfailed) ?_
  rintro _ numbered ⟨⟨hnumbered, hlinks⟩, hkeyed⟩
  refine ScopeM.ends_bind ((resolveLinks_fills hstart hnumbered hlinks hkeyed).mono
    (fun _ _ hdone => hdone) fun _ hfailed => Or.inr hfailed) ?_
  intro _ filled hfilled
  have himages : ∀ after, filled.Imaged after → start.SavesLinks after :=
    fun _ himaged => Or.inr fun key target hlink _ => (hfilled key target hlink).imaged himaged
  refine ScopeM.ends_bind ((rowImages_imaged env filled (.refl filled)).mono
    (fun _ _ himaged => himages _ himaged) himages) ?_
  intro images made hmade
  exact ScopeM.ends_get_bind (ScopeM.ends_lift_bind (fun _ _ => ScopeM.ends_modify trivial) hmade)

end

end Scope

end RecordStore
