import RecordStore.Proofs.Scope.Designating
import RecordStore.Proofs.Scope.Leaving

/-!
# References until they are staged

A reference is assigned as a record, or as the key of one (`Referent`).  From then on it is held in one of
three places: as a link to a record that has no key yet, as a marked value in a column, or in the row that was
staged (`Scope.PointsTo`).  A flush moves it from one to the next, and gives the key of the record when it
fills the link (`Scope.flush_assigned`).  Whatever does not concern the column, its link and its row leaves the
reference where it is (`Scope.Spares`).
-/

namespace RecordStore

/-- What a reference is assigned: a record, or the key of one. -/
inductive Referent where
  | record (target : Handle)
  | key (id : Int64)

/-- A column that holds the references of a relationship. -/
structure Model.ReferenceColumn (model : Model) (column : Column) : Prop where
  mem : column ∈ model.columns
  relationship : ∃ relationship ∈ model.relationships, relationship.column = column.name

namespace Model.Compiled

variable {find? : String → Option Model} {model : Model} {column : Column}

theorem of_reference (h : model.Compiled find?) (hcolumn : model.ReferenceColumn column) :
    column.kind = .integer ∧ column.primaryKey = false := by
  obtain ⟨relationship, hmem, hname⟩ := hcolumn.relationship
  obtain ⟨names, field, target, known, -, -, hown, hpart⟩ := h.relationship_part hmem
  cases hpart
  obtain rfl := List.inj_on_of_nodup_map h.columns_nodup hcolumn.mem hown hname.symm
  exact ⟨rfl, rfl⟩

/-- The column of a relationship is one of the model. -/
theorem exists_referenceColumn (h : model.Compiled find?) {relationship : Relationship}
    (hmem : relationship ∈ model.relationships) :
    ∃ column, model.ReferenceColumn column ∧ column.name = relationship.column := by
  obtain ⟨-, -, -, -, column, hcolumn, hname, -⟩ := h.relationship_column hmem
  exact ⟨column, ⟨hcolumn, relationship, hmem, hname.symm⟩, hname⟩

end Model.Compiled

namespace Scope

variable {env : Environment} {terms : Terms} {deleted : List (String × UInt64)}
  {start scope before after last : Scope} {handle other target : Handle} {entry : Entry} {name : String}
  {column : Column} {referent : Referent} {key : Handle × String}

/-- The key that a reference is going to be; a record may have none yet. -/
def referentKey? (scope : Scope) : Referent → Option Int64
  | .record target => (scope.entries[target]?).bind (·.record.id)
  | .key id => some id

theorem Carries.referentKey? (h : before.Carries after) {id : Int64}
    (hkey : before.referentKey? referent = some id) : after.referentKey? referent = some id := by
  cases referent with
  | key => exact hkey
  | record target =>
      obtain ⟨entry, hentry, hid⟩ := Option.bind_eq_some_iff.1 hkey
      obtain ⟨new, hnew, -, hcarried⟩ := h target entry hentry
      exact Option.bind_eq_some_iff.2 ⟨new, hnew, hcarried id hid⟩

/-- Where a record holds the reference in one of its columns. -/
inductive PointsTo (scope : Scope) (handle : Handle) (entry : Entry) (column : Column)
    (referent : Referent) : Prop where
  | linked (target : Handle) : referent = .record target →
      scope.links.find? (handle, column.name) = some target →
      PointsTo scope handle entry column referent
  | held (id : Int64) : scope.links.find? (handle, column.name) = none →
      scope.referentKey? referent = some id → scope.Leaves entry column (.integer id) →
      PointsTo scope handle entry column referent

/-- A column of references holds what was assigned to it, as long as the record is to stay. -/
def Assigned (scope : Scope) (handle : Handle) (column : Column) (referent : Referent) : Prop :=
  ∃ entry, scope.entries[handle]? = some entry ∧ entry.record.model.ReferenceColumn column ∧
    (entry.state.isLive = true → scope.PointsTo handle entry column referent)

/-- The record is changed, and holds the reference now. -/
theorem assigned_modifyRecord (hentry : scope.entries[handle]? = some entry)
    (hcolumn : entry.record.model.ReferenceColumn column) {f : Record → Record}
    (hmodel : (f entry.record).model = entry.record.model)
    (hpoints : (scope.modifyRecord handle f).PointsTo handle { entry with record := f entry.record } column
      referent) : (scope.modifyRecord handle f).Assigned handle column referent := by
  refine ⟨{ entry with record := f entry.record }, ?_, hmodel ▸ hcolumn, fun _ => hpoints⟩
  rw [getElem?_modifyRecord, hentry, Option.map_some, if_pos rfl]

/-! ## Assignments -/

/-- A key in a marked column is what a flush is going to leave there. -/
theorem leaves_key {find? : String → Option Model} {id : Int64}
    (hcompiled : entry.record.model.Compiled find?) (hcolumn : entry.record.model.ReferenceColumn column) :
    scope.Leaves { entry with
      record := (entry.record.putValue column.name (.integer id)).markChanged column.name }
      column (.integer id) := by
  refine .marked (.integer id) ?_ ?_ (Column.bind_key (hcompiled.of_reference hcolumn).1 _ id)
  · exact (Record.isChanged_markChanged ..).trans (if_pos rfl)
  · exact (Record.find?_putValue ..).trans (if_pos rfl)

section

variable (hregistry : env.registry.Consistent) (hrooted : scope.Rooted env)
  (hentry : scope.entries[handle]? = some entry) (hcolumn : entry.record.model.ReferenceColumn column)

include hregistry hrooted hentry hcolumn

/-- A record is assigned by its key, or by a link. -/
theorem assigned_refer {referred : Entry} (hreferred : scope.entries[target]? = some referred) :
    (scope.refer handle column.name target referred.record.id).Assigned handle column
      (.record target) := by
  obtain ⟨_, hcompiled⟩ := hrooted.compiled hregistry hentry
  have hheld : ∀ links : SortedMap (Handle × String) Handle,
      ({ scope with links } : Scope).entries[handle]? = some entry := fun _ => hentry
  have hcarries := (steady_refer env scope handle column.name target referred.record.id).carries
  unfold refer at hcarries ⊢
  cases hkey : referred.record.id with
  | some id =>
      rw [hkey] at hcarries
      refine assigned_modifyRecord (hheld _) hcolumn rfl (.held id ?_ ?_ (leaves_key hcompiled hcolumn))
      · exact (SortedMap.find?_erase ..).trans (if_pos rfl)
      · -- The target has its key still, also when it is the record itself.
        exact hcarries.referentKey? (Option.bind_eq_some_iff.2 ⟨referred, hreferred, hkey⟩)
  | none =>
      refine assigned_modifyRecord (hheld _) hcolumn rfl (.linked target rfl ?_)
      exact (SortedMap.find?_insert ..).trans (if_pos rfl)

/-- A key is held in the column; as long as there is a link, that is what is held. -/
theorem assigned_key (id : Int64)
    (hreferent : scope.links.find? (handle, column.name) = none ∧ referent = .key id ∨
      ∃ target, scope.links.find? (handle, column.name) = some target ∧ referent = .record target) :
    (scope.modifyRecord handle fun _ =>
      (entry.record.putValue column.name (.integer id)).markChanged column.name).Assigned handle column
        referent := by
  obtain ⟨_, hcompiled⟩ := hrooted.compiled hregistry hentry
  refine assigned_modifyRecord hentry hcolumn rfl ?_
  rcases hreferent with ⟨hnone, rfl⟩ | ⟨target, hlink, rfl⟩
  · exact .held id hnone rfl (leaves_key hcompiled hcolumn)
  · exact .linked target rfl hlink

end

/-! ## What leaves references alone -/

/-- A column of a record, its mark and its link stay as they are, and so do all rows.  The record may go away. -/
structure Spares (before after : Scope) (handle : Handle) (name : String) : Prop where
  carries : before.Carries after
  staged : after.staged = before.staged
  link : after.links.find? (handle, name) = before.links.find? (handle, name)
  entry : ∀ entry, before.entries[handle]? = some entry → ∃ new, after.entries[handle]? = some new ∧
    (new.state.isLive = true → new.state = entry.state) ∧
    new.record.isChanged name = entry.record.isChanged name ∧
    new.record.values.find? name = entry.record.values.find? name

namespace Spares

theorem of_same (hentries : after.entries = before.entries) (hstaged : after.staged = before.staged)
    (hlink : after.links.find? (handle, name) = before.links.find? (handle, name)) :
    before.Spares after handle name where
  carries _ entry hentry := ⟨entry, by rw [hentries, hentry], rfl, fun _ hid => hid⟩
  staged := hstaged
  link := hlink
  entry entry hentry := ⟨entry, by rw [hentries, hentry], fun _ => rfl, rfl, rfl⟩

theorem refl (scope : Scope) (handle : Handle) (name : String) : scope.Spares scope handle name :=
  of_same rfl rfl rfl

theorem trans (h : before.Spares after handle name) (h' : after.Spares last handle name) :
    before.Spares last handle name where
  carries := h.carries.trans h'.carries
  staged := h'.staged.trans h.staged
  link := h'.link.trans h.link
  entry entry hentry := by
    obtain ⟨middle, hmiddle, hstate, hmark, hvalue⟩ := h.entry entry hentry
    obtain ⟨new, hnew, hstate', hmark', hvalue'⟩ := h'.entry middle hmiddle
    refine ⟨new, hnew, ?_, hmark'.trans hmark, hvalue'.trans hvalue⟩
    intro hlive
    have hsame := hstate' hlive
    exact hsame.trans (hstate (hsame ▸ hlive))

theorem appendAs (scope : Scope) (new : Entry) (identity : SortedMap (String × Int64) Handle)
    (handle : Handle) (name : String) : scope.Spares (scope.appendAs new identity) handle name where
  carries := carries_appendAs scope new identity
  staged := rfl
  link := rfl
  entry entry hentry := ⟨entry, getElem?_appendAs.2 (Or.inl hentry), fun _ => rfl, rfl, rfl⟩

/-- One record changes, and if it is the record in question its column does not. -/
theorem modifyRecord {f : Record → Record}
    (hf : ∀ entry, scope.entries[other]? = some entry → (f entry.record).model = entry.record.model ∧
      (∀ id, entry.record.id = some id → (f entry.record).id = some id) ∧
      (other = handle → (f entry.record).isChanged name = entry.record.isChanged name ∧
        (f entry.record).values.find? name = entry.record.values.find? name)) :
    scope.Spares (scope.modifyRecord other f) handle name where
  carries place entry hentry := by
    rw [getElem?_modifyRecord, hentry]
    by_cases hsame : other = place
    · obtain ⟨hmodel, hid, -⟩ := hf entry (hsame ▸ hentry)
      exact ⟨{ entry with record := f entry.record }, by simp [hsame], hmodel, hid⟩
    · exact ⟨entry, by simp [hsame], rfl, fun _ hid => hid⟩
  staged := rfl
  link := rfl
  entry entry hentry := by
    rw [getElem?_modifyRecord, hentry]
    by_cases hsame : other = handle
    · obtain ⟨hmark, hvalue⟩ := (hf entry (hsame ▸ hentry)).2.2 hsame
      exact ⟨{ entry with record := f entry.record }, by simp [hsame], fun _ => rfl, hmark, hvalue⟩
    · exact ⟨entry, by simp [hsame], fun _ => rfl, rfl, rfl⟩

theorem withdraw (scope : Scope) (other handle : Handle) (name : String) :
    scope.Spares (scope.withdraw other) handle name where
  carries place entry hentry := by
    refine ⟨if other = place then { entry with state := entry.state.afterDelete } else entry, ?_, ?_, ?_⟩
    · exact (getElem?_modifyEntry ..).trans (by rw [hentry, Option.map_some])
    · split <;> rfl
    · intro id hid
      split <;> exact hid
  staged := rfl
  link := rfl
  entry entry hentry := by
    refine ⟨if other = handle then { entry with state := entry.state.afterDelete } else entry, ?_, ?_, ?_⟩
    · exact (getElem?_modifyEntry ..).trans (by rw [hentry, Option.map_some])
    · -- A record that is withdrawn is not to stay.
      split
      · rcases afterDelete_cases entry.state with ⟨hstate, -⟩ | ⟨hstate, -⟩ <;>
          simp [hstate, Lifecycle.isLive]
      · exact fun _ => rfl
    · split <;> exact ⟨rfl, rfl⟩

/-- Another column refers to a record. -/
theorem refer {attr : String} (hother : (handle, name) ≠ (other, attr)) (target : Handle)
    (id : Option Int64) : scope.Spares (scope.refer other attr target id) handle name := by
  have hlinked : ∀ links : SortedMap (Handle × String) Handle,
      links.find? (handle, name) = scope.links.find? (handle, name) →
        scope.Spares { scope with links } handle name := fun links hlinks => .of_same rfl rfl hlinks
  have hname : other = handle → name ≠ attr := by
    rintro rfl rfl
    exact hother rfl
  unfold Scope.refer
  cases id with
  | some id =>
      refine (hlinked _ ?_).trans (.modifyRecord ?_)
      · rw [SortedMap.find?_erase, if_neg hother]
      · intro entry _
        refine ⟨rfl, fun _ hid => hid, fun hsame => ⟨?_, ?_⟩⟩
        · exact (Record.isChanged_markChanged ..).trans (if_neg (hname hsame))
        · exact (Record.find?_putValue ..).trans (if_neg (hname hsame))
  | none =>
      refine (hlinked _ ?_).trans (.modifyRecord ?_)
      · rw [SortedMap.find?_insert, if_neg hother]
      · intro entry _
        refine ⟨rfl, fun _ hid => hid, fun hsame => ⟨?_, rfl⟩⟩
        exact (Record.isChanged_markChanged ..).trans (if_neg (hname hsame))

end Spares

theorem Assigned.transfer (h : before.Assigned handle column referent)
    (hspared : before.Spares after handle column.name) : after.Assigned handle column referent := by
  obtain ⟨entry, hentry, hcolumn, hpoints⟩ := h
  obtain ⟨new, hnew, hstate, hmark, hvalue⟩ := hspared.entry entry hentry
  obtain ⟨same, hsame, hmodel, hid⟩ := hspared.carries handle entry hentry
  obtain rfl := Option.some.inj (hnew.symm.trans hsame)
  refine ⟨new, hnew, hmodel ▸ hcolumn, ?_⟩
  intro hlive
  have hstands := hstate hlive
  cases hpoints (hstands ▸ hlive) with
  | linked target hreferent hlink => exact .linked target hreferent (hspared.link.trans hlink)
  | held id hnone hkey hleaves =>
      refine .held id (hspared.link.trans hnone) (hspared.carries.referentKey? hkey) ?_
      exact hleaves.transfer hspared.staged hstands hmodel hid hmark fun _ => hvalue

/-! ## Flushes -/

/-- A link is not lost when a flush fails: all links up to it lead to records that are to stay. -/
def KeepsLink (scope : Scope) (key : Handle × String) : Prop :=
  ∀ target, scope.links.find? key = some target → scope.Fillable key

/-- A flush that is underway makes no links, and takes no record away. -/
theorem Underway.keepsLink (h : start.Underway after) (hkeeps : start.KeepsLink key) :
    after.KeepsLink key := by
  intro target hlink other gone hother hlt
  obtain ⟨entry, hentry, hlive⟩ :=
    hkeeps target (h.links key target hlink) other gone (h.links other gone hother) hlt
  obtain ⟨record, hrecord, -⟩ := h.entries gone entry hentry
  exact ⟨_, hrecord, hlive⟩

/-- A reference is held in the same place, or its link was filled. -/
theorem PointsTo.underway (hregistry : env.registry.Consistent) (hrooted : start.Rooted env)
    (hentry : start.entries[handle]? = some entry) (hcolumn : entry.record.model.ReferenceColumn column)
    (h : start.PointsTo handle entry column referent) (hunderway : start.Underway after)
    (hlinks : after.links = start.links ∨ ∀ target,
      start.links.find? (handle, column.name) = some target →
        after.LinkFilled (handle, column.name) target) :
    ∃ record, after.entries[handle]? = some { entry with record } ∧
      record.model = entry.record.model ∧
      after.PointsTo handle { entry with record } column referent := by
  obtain ⟨record, hrecord, hmodel, hid, htreated⟩ := hunderway.entries handle entry hentry
  refine ⟨record, hrecord, hmodel, ?_⟩
  obtain ⟨_, hcompiled⟩ := hrooted.compiled hregistry hentry
  cases h with
  | linked target hreferent hlink =>
      cases hfind : after.links.find? (handle, column.name) with
      | some found =>
          obtain rfl := Option.some.inj (hlink.symm.trans (hunderway.links _ _ hfind))
          exact .linked target hreferent hfind
      | none =>
          -- The link is gone, so it was filled, with the key that its target has now.
          have hfilled := hlinks.resolve_left fun hsame => by simp [hsame, hlink] at hfind
          obtain ⟨new, id, hnew, hlinked, hvalue, hmark⟩ := hfilled target hlink
          obtain rfl := Option.some.inj (hrecord.symm.trans hnew)
          obtain ⟨found, hfound, -, hkey⟩ := linkedId?_eq_some.1 hlinked
          refine .held id hfind ?_ (.marked (.integer id) hmark hvalue ?_)
          · rw [hreferent]
            exact Option.bind_eq_some_iff.2 ⟨found, hfound, hkey⟩
          · exact Column.bind_key (hcompiled.of_reference hcolumn).1 _ id
  | held id hnone hkey hleaves =>
      -- Without a link the column is left alone.
      obtain ⟨relationship, hmem, hname⟩ := hcolumn.relationship
      obtain ⟨hvalue, hmark⟩ := (htreated relationship.column).reference_kept hcompiled hmem
        (hname ▸ hnone)
      rw [hname] at hvalue hmark
      refine .held id (hunderway.unlinked hnone) (hunderway.carries.referentKey? hkey) ?_
      exact hleaves.transfer hunderway.staged rfl hmodel hid hmark fun _ => hvalue

section

variable (hregistry : env.registry.Consistent)
  (hcount : ∀ model ∈ env.registry.models, model.columns.length < 4294967296)
  (hgrounded : terms.grounded) (h : start.Intact env terms deleted) (hstart : start.Orderly)

include hregistry hcount hgrounded h hstart

/-- A flush that succeeds stages the reference of a record that is to stay. -/
theorem flush_stages_reference (hentry : start.entries[handle]? = some entry)
    (hlive : entry.state.isLive = true) (hcolumn : entry.record.model.ReferenceColumn column)
    (hpoints : start.PointsTo handle entry column referent) :
    (flush env).Ends start (fun _ after => after.Assigned handle column referent) (fun _ => True) := by
  refine flush_of_staging terms hregistry h.rooted hstart ?_
  intro filled hreached hunderway hkeyed hforgotten hfilled
  have hintact := h.reaches hregistry hcount hreached
  obtain ⟨record, hrecord, hmodel, hheld⟩ := hpoints.underway hregistry h.rooted hentry hcolumn hunderway
    (Or.inr fun target hlink => hfilled _ target hlink)
  cases hheld with
  | linked target _ hlink =>
      rw [hforgotten] at hlink
      cases hlink
  | held id hnone hkey hleaves =>
      -- The record got its key before links were filled.
      obtain ⟨number, hnumber⟩ := Option.ne_none_iff_exists'.1 (hkeyed handle _ hrecord hlive)
      obtain ⟨_, hcompiled⟩ := h.rooted.compiled hregistry hentry
      have hstaged := staging_leaves hregistry hintact.rooted hrecord hlive (hmodel ▸ hcolumn.mem)
        (hcompiled.of_reference hcolumn).2 hleaves hcount hintact.rows
        ((hintact.keyed hgrounded).sole hregistry hintact.rooted handle) hnumber
      refine ((staging_keeps env filled).and hstaged).mono ?_ fun _ _ => trivial
      rintro _ after ⟨⟨hcarries, hsame⟩, last, hlast, hmodel', hleft⟩
      refine ⟨last, hlast, (hmodel'.trans hmodel) ▸ hcolumn, fun _ => ?_⟩
      exact .held id (by rw [hsame, hnone]) (hcarries.referentKey? hkey) hleft

/-- A flush leaves a reference where it is, or moves it on; when it fails, only a link can be lost. -/
theorem flush_assigned (hassigned : start.Assigned handle column referent) :
    (flush env).Ends start (fun _ after => after.Assigned handle column referent)
      (fun after => start.Underway after ∧
        (start.KeepsLink (handle, column.name) → after.Assigned handle column referent)) := by
  obtain ⟨entry, hentry, hcolumn, hpoints⟩ := hassigned
  have hdone : (flush env).Ends start (fun _ after => after.Assigned handle column referent)
      (fun _ => True) := by
    by_cases hlive : entry.state.isLive = true
    · exact flush_stages_reference hregistry hcount hgrounded h hstart hentry hlive hcolumn (hpoints hlive)
    · -- Nothing is said of a record that goes away.
      refine (flush_of_gone hregistry h.rooted hstart hentry (Bool.eq_false_iff.2 hlive)).mono ?_
        fun _ _ => trivial
      rintro _ _ ⟨new, hnew, hmodel, hgone⟩
      exact ⟨new, hnew, hmodel ▸ hcolumn, fun hback => by simp [hgone] at hback⟩
  refine ((hdone.and (flush_underway hregistry h.rooted hstart)).and
    (flush_fills hregistry h.rooted hstart)).mono (fun _ _ hdone => hdone.1.1) ?_
  rintro after ⟨⟨-, hunderway⟩, hsaves⟩
  refine ⟨hunderway, ?_⟩
  intro hkeeps
  obtain ⟨record, hrecord, hmodel, -⟩ := hunderway.entries handle entry hentry
  refine ⟨_, hrecord, hmodel ▸ hcolumn, ?_⟩
  intro hlive
  obtain ⟨same, hsame, -, hheld⟩ := (hpoints hlive).underway hregistry h.rooted hentry hcolumn hunderway
    (hsaves.imp_right fun hfilled target hlink => hfilled _ target hlink (hkeeps target hlink))
  cases Option.some.inj (hrecord.symm.trans hsame)
  exact hheld

end

/-- Looking records up leaves a reference where it is, or moves it on, as long as no link is lost. -/
theorem lookable_assigned (hregistry : env.registry.Consistent)
    (hcount : ∀ model ∈ env.registry.models, model.columns.length < 4294967296)
    (hgrounded : terms.grounded) (h : start.Intact env terms deleted) :
    Lookable env fun scope => (start.Reaches env terms scope ∧ scope.Orderly) ∧
      scope.KeepsLink (handle, column.name) ∧ scope.Assigned handle column referent := by
  refine lookable_of_orderly hregistry h.rooted ?_ ?_ ?_
  · exact fun scope hscope => ⟨hscope.1, hscope.2.transfer (.of_same rfl rfl rfl)⟩
  · rintro scope entry identity ⟨hkeeps, hassigned⟩
    refine ⟨?_, hassigned.transfer (.appendAs ..)⟩
    intro target hlink other gone hother hlt
    obtain ⟨found, hfound, hlive⟩ := hkeeps target hlink other gone hother hlt
    exact ⟨found, getElem?_appendAs.2 (Or.inl hfound), hlive⟩
  · rintro scope hreached horderly ⟨hkeeps, hassigned⟩
    refine ((flush_rests env scope).and (flush_assigned hregistry hcount hgrounded
      (h.reaches hregistry hcount hreached) horderly hassigned)).mono ?_ ?_
    · rintro _ after ⟨hrests, hdone⟩
      refine ⟨?_, hdone⟩
      -- There are no links any more that could be lost.
      intro target hlink
      rw [hrests.unlinked] at hlink
      cases hlink
    · rintro after ⟨-, hunderway, hfailed⟩
      exact ⟨hunderway.keepsLink hkeeps, hfailed hkeeps⟩

end Scope

end RecordStore
