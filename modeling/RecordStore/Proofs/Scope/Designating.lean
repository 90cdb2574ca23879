import RecordStore.Proofs.Integrity.IdentityMap
import RecordStore.Proofs.Records.Retaining
import RecordStore.Proofs.Scope.Resolving

/-!
# What relationships designate

A relationship of a record designates the end of its link, if there is one, and otherwise the record whose
key is in its column (`Scope.RefersTo`).  While a flush is underway it goes on designating that: rows stay,
records keep their keys, and a column without a link is left alone.  A link may be replaced by the key of its
end (`Scope.RefersTo.underway`); only one that is neither kept nor filled is lost.
-/

namespace RecordStore

namespace Scope

variable {env : Environment} {deleted : List (String × UInt64)} {start scope after : Scope}
  {handle target : Handle} {entry : Entry} {record : Record} {relationship : Relationship}
  {model : Model} {id : Int64} {field name : String} {result : Option Handle}

/-- What a relationship of a record designates, which may be nothing. -/
inductive RefersTo (env : Environment) (scope : Scope) (handle : Handle) (record : Record)
    (relationship : Relationship) : Option Handle → Prop where
  | linked (target : Handle) : scope.links.find? (handle, relationship.column) = some target →
      RefersTo env scope handle record relationship (some target)
  | nothing : scope.links.find? (handle, relationship.column) = none →
      record.values.find? relationship.column = some .null →
      RefersTo env scope handle record relationship none
  | keyed (model : Model) (id : Int64) (target : Handle) :
      scope.links.find? (handle, relationship.column) = none →
      record.values.find? relationship.column = some (.integer id) →
      model ∈ env.registry.models → model.name = relationship.target →
      scope.FindsAt env model id target → RefersTo env scope handle record relationship (some target)

theorem RefersTo.unique (hregistry : env.registry.Consistent) {other : Option Handle}
    (h : scope.RefersTo env handle record relationship result)
    (h' : scope.RefersTo env handle record relationship other) : other = result := by
  cases h with
  | linked target hlink =>
      cases h' with
      | linked _ hlink' => exact hlink'.symm.trans hlink
      | nothing hnone => cases hnone.symm.trans hlink
      | keyed _ _ _ hnone => cases hnone.symm.trans hlink
  | nothing hnone hheld =>
      cases h' with
      | linked _ hlink' => cases hnone.symm.trans hlink'
      | nothing => rfl
      | keyed _ _ _ _ hheld' => cases hheld.symm.trans hheld'
  | keyed model id target hnone hheld hmodel hname hfinds =>
      cases h' with
      | linked _ hlink' => cases hnone.symm.trans hlink'
      | nothing _ hheld' => cases hheld.symm.trans hheld'
      | keyed model' id' target' _ hheld' hmodel' hname' hfinds' =>
          cases hheld.symm.trans hheld'
          rw [hregistry.eq_of_name hmodel' hmodel (hname'.trans hname.symm)] at hfinds'
          rw [hfinds.unique hfinds']

section

variable (hregistry : env.registry.Consistent)
  (hcount : ∀ model ∈ env.registry.models, model.columns.length < 4294967296)
  (hsound : scope.SoundRows env deleted)

include hregistry hcount hsound

/-- What is returned for a relationship is what it designates; a key in its column stands for it then. -/
theorem related_refers (handle : Handle) (field : String) :
    (related env handle field).Ends scope
      (fun result last => scope.Loads last ∧ ∃ entry relationship,
        scope.entries[handle]? = some entry ∧ relationshipOf entry.record field = .ok relationship ∧
        scope.RefersTo env handle entry.record relationship result ∧
        ∀ id, scope.links.find? (handle, relationship.column) = none →
          entry.record.values.find? relationship.column = some (.integer id) →
          last.identity.find? (relationship.target, id) = result)
      (fun _ => True) := by
  unfold related
  refine ScopeM.ends_record_bind ?_ trivial
  intro entry hentry
  refine ScopeM.ends_lift_bind ?_ trivial
  intro relationship hrelationship
  refine ScopeM.ends_get_bind ?_
  -- A link comes before whatever the column holds.
  cases hlink : scope.links.find? (handle, relationship.column) with
  | some target =>
      refine ScopeM.ends_pure ⟨.refl scope, entry, relationship, hentry, hrelationship,
        .linked target hlink, ?_⟩
      intro id hnone
      cases hlink.symm.trans hnone
  | none =>
      refine ScopeM.ends_lift_bind ?_ trivial
      intro value hvalue
      have hheld := Record.get_eq_ok.1 hvalue
      cases value with
      | null =>
          refine ScopeM.ends_pure ⟨.refl scope, entry, relationship, hentry, hrelationship,
            .nothing hlink hheld, ?_⟩
          intro id _ hinteger
          cases hheld.symm.trans hinteger
      | integer id =>
          refine ScopeM.ends_bind ((find_finds hregistry hcount hsound _ id).mono (fun _ _ h => h)
            fun _ _ => trivial) ?_
          rintro target last ⟨hloads, hidentity, model, hmodel, hname, hfinds⟩
          refine ScopeM.ends_pure ⟨hloads, entry, relationship, hentry, hrelationship,
            .keyed model id target hlink hheld hmodel hname hfinds, ?_⟩
          intro other _ hinteger
          cases hheld.symm.trans hinteger
          exact hidentity
      | _ => exact ScopeM.ends_throw trivial

/-- What a relationship designates is returned. -/
theorem related_of_refers (hentry : scope.entries[handle]? = some entry)
    (hrelationship : relationshipOf entry.record field = .ok relationship)
    (h : scope.RefersTo env handle entry.record relationship result) :
    (related env handle field).Ends scope (fun found _ => found = result) (fun _ => False) := by
  unfold related
  refine ScopeM.ends_record_bind_of_some hentry (ScopeM.ends_lift_bind_of_ok hrelationship
    (ScopeM.ends_get_bind ?_))
  cases h with
  | linked target hlink =>
      rw [hlink]
      exact ScopeM.ends_pure rfl
  | nothing hlink hheld =>
      rw [hlink]
      exact ScopeM.ends_lift_bind_of_ok (Record.get_eq_ok.2 hheld) (ScopeM.ends_pure rfl)
  | keyed model id target hlink hheld hmodel hname hfinds =>
      rw [hlink]
      refine ScopeM.ends_lift_bind_of_ok (Record.get_eq_ok.2 hheld) ?_
      rw [← hname]
      refine ScopeM.ends_bind (find_of_findsAt hregistry hcount hsound hmodel hfinds) ?_
      rintro _ _ rfl
      exact ScopeM.ends_pure rfl

end

/-- Asking for what a relationship designates at most loads a record. -/
theorem related_rooted (hregistry : env.registry.Consistent) (hrooted : scope.Rooted env) {last : Scope}
    (hrun : (related env handle field).run scope = .ok result last) : last.Rooted env := by
  have hlook : Lookable env (scope.Reaches env { grounded := False, undeleted := False }) :=
    lookable_reaches hrooted
  exact hrooted.reaches
    ((hlook.keeps_related hregistry handle field scope Relation.ReflTransGen.refl).of_ok hrun)

/-! ## Flushes that are underway -/

/-- Records keep their keys. -/
theorem StandsFor.underway (h : start.StandsFor handle name id) (hunderway : start.Underway after) :
    after.StandsFor handle name id := by
  obtain ⟨entry, hentry, hname, hid⟩ := h
  obtain ⟨record, hrecord, hmodel, hkept, -⟩ := hunderway.entries handle entry hentry
  exact ⟨_, hrecord, (congrArg Model.name hmodel).trans hname, hkept id hid⟩

section

variable (hrooted : start.Rooted env) (hkeyed : start.Keyed env) (hrooted' : after.Rooted env)
  (hkeyed' : after.Keyed env) (hunderway : start.Underway after)

include hrooted hkeyed hrooted' hkeyed' hunderway

/-- A key is found where it was.  No new record takes the key of a row that is to be loaded. -/
theorem FindsAt.underway (hregistry : env.registry.Consistent) (hmodel : model ∈ env.registry.models)
    (h : start.FindsAt env model id handle) : after.FindsAt env model id handle := by
  cases h with
  | held _ entry hfind hentry hlive =>
      obtain ⟨record, hrecord, -⟩ := hunderway.entries handle entry hentry
      exact .held handle _
        ((identity_iff hrooted' hkeyed').2 ((hrooted.standsFor hfind).underway hunderway)) hrecord hlive
  | loaded row hnone hpositive hvisible hcan =>
      have hrow : after.visibleRow env model.tableName id.toUInt64 = .ok (some row) :=
        (visibleRow_congr (by rw [hunderway.staged])).trans hvisible
      rw [← hunderway.length]
      refine .loaded row ?_ hpositive hrow hcan
      cases hfind : after.identity.find? (model.name, id) with
      | none => rfl
      | some other =>
          obtain ⟨new, hnew, hname, hid⟩ := hrooted'.standsFor hfind
          have hsame : new.record.model = model :=
            hregistry.eq_of_name (hrooted'.mem_models hnew) hmodel hname
          obtain ⟨old, hold, hstate, hmodel', hkept, -⟩ := hunderway.entry_back hnew
          have hown : after.visibleRow env new.record.model.tableName id.toUInt64 = .ok (some row) := by
            rwa [hsame]
          -- The record of a visible row is stored, so it had the key before.
          have hstored : old.state = .persistent ∨ old.state = .deleted := by
            rw [← hstate]
            have habsent := (hkeyed'.records _ _ (standing_of_entry hnew)).absent
            cases hcase : new.state with
            | persistent => exact Or.inl rfl
            | deleted => exact Or.inr rfl
            | pending => exact absurd hown (habsent (Or.inl hcase) id row hid)
            | removed => exact absurd hown (habsent (Or.inr hcase) id row hid)
          obtain ⟨key, _, hkey, -⟩ := (hkeyed.records _ _ (standing_of_entry hold)).present hstored
          obtain rfl := Option.some.inj ((hkept key hkey).symm.trans hid)
          have hbefore : start.StandsFor other model.name key :=
            ⟨old, hold, by rw [← hsame, hmodel']; rfl, hkey⟩
          cases hnone.symm.trans ((identity_iff hrooted hkeyed).2 hbefore)

/-- What is found by a key was found by it before, or is a record to which the key was given. -/
theorem FindsAt.of_underway (h : after.FindsAt env model id handle) :
    start.FindsAt env model id handle ∨
      ∃ entry, start.entries[handle]? = some entry ∧ entry.record.id = none := by
  cases h with
  | held _ new hfind hnew hlive =>
      obtain ⟨_, hnew', hname, hid⟩ := hrooted'.standsFor hfind
      obtain rfl := Option.some.inj (hnew.symm.trans hnew')
      obtain ⟨old, hold, hstate, hmodel, hkept, -⟩ := hunderway.entry_back hnew
      cases hcase : old.record.id with
      | none => exact Or.inr ⟨old, hold, hcase⟩
      | some key =>
          obtain rfl := Option.some.inj ((hkept key hcase).symm.trans hid)
          have hstands : start.StandsFor handle model.name key :=
            ⟨old, hold, (congrArg Model.name hmodel).symm.trans hname, hcase⟩
          exact Or.inl (.held handle old ((identity_iff hrooted hkeyed).2 hstands) hold (hstate ▸ hlive))
  | loaded row hnone hpositive hvisible hcan =>
      rw [hunderway.length]
      refine Or.inl (.loaded row ?_ hpositive
        ((visibleRow_congr (by rw [hunderway.staged])).trans hvisible) hcan)
      cases hfind : start.identity.find? (model.name, id) with
      | none => rfl
      | some other =>
          cases hnone.symm.trans ((identity_iff hrooted' hkeyed').2
            ((hrooted.standsFor hfind).underway hunderway))

end

theorem Underway.unlinked (h : start.Underway after) {key : Handle × String}
    (hnone : start.links.find? key = none) : after.links.find? key = none := by
  cases hfind : after.links.find? key with
  | none => rfl
  | some target => cases hnone.symm.trans (h.links key target hfind)

/-- The column of a relationship takes no key and no default, so a flush treats it only by a link. -/
theorem Treated.reference_kept {find? : String → Option Model}
    (h : start.Treated scope handle entry.record record relationship.column)
    (hcompiled : entry.record.model.Compiled find?)
    (hmem : relationship ∈ entry.record.model.relationships)
    (hlink : start.links.find? (handle, relationship.column) = none) :
    record.values.find? relationship.column = entry.record.values.find? relationship.column ∧
      record.isChanged relationship.column = entry.record.isChanged relationship.column := by
  cases h with
  | kept hvalue hmark => exact ⟨hvalue, hmark⟩
  | filled _ _ hfilled => cases hlink.symm.trans hfilled
  | given column hgiven hname =>
      rcases hgiven with hkey | ⟨hcolumn, hdefault⟩
      · exact absurd hname.symm (hcompiled.reference_ne_key hmem hkey)
      · exact absurd (hcompiled.reference_default hmem hcolumn hname) hdefault

/-- The column of a relationship is left alone as long as there is no link. -/
theorem Underway.reference_kept (h : start.Underway after) (hregistry : env.registry.Consistent)
    (hrooted : start.Rooted env) (hentry : start.entries[handle]? = some entry)
    (hmem : relationship ∈ entry.record.model.relationships)
    (hlink : start.links.find? (handle, relationship.column) = none) :
    ∃ record, after.entries[handle]? = some { entry with record } ∧
      record.model = entry.record.model ∧
      record.values.find? relationship.column = entry.record.values.find? relationship.column := by
  obtain ⟨record, hrecord, hmodel, -, htreated⟩ := h.entries handle entry hentry
  obtain ⟨_, hcompiled⟩ := hrooted.compiled hregistry hentry
  exact ⟨record, hrecord, hmodel, ((htreated _).reference_kept hcompiled hmem hlink).1⟩

section

variable (hregistry : env.registry.Consistent) (hrooted : start.Rooted env) (hkeyed : start.Keyed env)
  (hstart : start.Orderly) (hrooted' : after.Rooted env) (hkeyed' : after.Keyed env)
  (hunderway : start.Underway after) (hentry : start.entries[handle]? = some entry)
  (hmem : relationship ∈ entry.record.model.relationships)

include hregistry hrooted hstart hrooted' hkeyed' hunderway hentry hmem

/-- A link that was filled leads by its key to where it led before. -/
theorem refersTo_of_linkFilled (hlink : start.links.find? (handle, relationship.column) = some target)
    (hfilled : after.LinkFilled (handle, relationship.column) target) :
    ∃ record, after.entries[handle]? = some { entry with record } ∧
      record.model = entry.record.model ∧
      after.RefersTo env handle record relationship (some target) := by
  obtain ⟨record, hrecord, hmodel, -⟩ := hunderway.entries handle entry hentry
  refine ⟨record, hrecord, hmodel, ?_⟩
  cases hfind : after.links.find? (handle, relationship.column) with
  | some other =>
      obtain rfl := Option.some.inj ((hunderway.links _ _ hfind).symm.trans hlink)
      exact .linked other hfind
  | none =>
      obtain ⟨new, id, hnew, hid, hvalue, -⟩ := hfilled
      obtain rfl := Option.some.inj (hrecord.symm.trans hnew)
      obtain ⟨found, hfound, hlive, hkey⟩ := linkedId?_eq_some.1 hid
      -- A link leads to a record of the target of its relationship.
      obtain ⟨_, _, hentry', htarget, other, hother, hcolumn, hname⟩ := hstart.links _ _ _ hlink
      obtain rfl := Option.some.inj (hentry.symm.trans hentry')
      obtain ⟨_, htarget', -, hmodel', -⟩ := hunderway.entry_back hfound
      obtain rfl := Option.some.inj (htarget.symm.trans htarget')
      obtain ⟨_, hcompiled⟩ := hrooted.compiled hregistry hentry
      have hends : found.record.model.name = relationship.target := by
        rw [hmodel', ← hcompiled.target_eq_of_column hmem hother hcolumn, hname]
        rfl
      exact .keyed found.record.model id target hfind hvalue
        (hrooted'.mem_models hfound) hends
        (.held target found ((identity_iff hrooted' hkeyed').2 ⟨found, hfound, rfl, hkey⟩) hfound hlive)

include hkeyed

/-- A relationship designates what it designated before, unless its link was forgotten without being
filled. -/
theorem RefersTo.underway (hlinks : after.links = start.links ∨ ∀ target,
      start.links.find? (handle, relationship.column) = some target →
        after.LinkFilled (handle, relationship.column) target)
    (h : start.RefersTo env handle entry.record relationship result) :
    ∃ record, after.entries[handle]? = some { entry with record } ∧
      record.model = entry.record.model ∧ after.RefersTo env handle record relationship result := by
  cases h with
  | linked target hlink =>
      rcases hlinks with hsame | hfilled
      · obtain ⟨record, hrecord, hmodel, -⟩ := hunderway.entries handle entry hentry
        exact ⟨record, hrecord, hmodel, .linked target (hsame ▸ hlink)⟩
      · exact refersTo_of_linkFilled hregistry hrooted hstart hrooted' hkeyed' hunderway hentry hmem hlink
          (hfilled target hlink)
  | nothing hlink hheld =>
      obtain ⟨record, hrecord, hmodel, hvalue⟩ :=
        hunderway.reference_kept hregistry hrooted hentry hmem hlink
      exact ⟨record, hrecord, hmodel, .nothing (hunderway.unlinked hlink) (hvalue.trans hheld)⟩
  | keyed model id target hlink hheld hmodel hname hfinds =>
      obtain ⟨record, hrecord, hsame, hvalue⟩ :=
        hunderway.reference_kept hregistry hrooted hentry hmem hlink
      exact ⟨record, hrecord, hsame, .keyed model id target (hunderway.unlinked hlink)
        (hvalue.trans hheld) hmodel hname
        (hfinds.underway hrooted hkeyed hrooted' hkeyed' hunderway hregistry hmodel)⟩

/-- A relationship designated what it designates, unless that is a record to which a key was given, or its
link was forgotten without being filled. -/
theorem RefersTo.of_underway (hlinks : after.links = start.links ∨ ∀ target,
      start.links.find? (handle, relationship.column) = some target →
        after.LinkFilled (handle, relationship.column) target)
    (hrecord : after.entries[handle]? = some { entry with record })
    (h : after.RefersTo env handle record relationship result) :
    start.RefersTo env handle entry.record relationship result ∨ ∃ target ∈ result,
      ∃ other, start.entries[target]? = some other ∧ other.record.id = none := by
  cases hlink : start.links.find? (handle, relationship.column) with
  | some target =>
      -- It still designates the end of the link.
      obtain ⟨record', hrecord', -, hrefers⟩ := RefersTo.underway hregistry hrooted hkeyed hstart hrooted'
        hkeyed' hunderway hentry hmem hlinks (.linked target hlink)
      cases Option.some.inj (hrecord.symm.trans hrecord')
      rw [hrefers.unique hregistry h]
      exact Or.inl (.linked target hlink)
  | none =>
      obtain ⟨record', hrecord', -, hvalue⟩ :=
        hunderway.reference_kept hregistry hrooted hentry hmem hlink
      cases Option.some.inj (hrecord.symm.trans hrecord')
      cases h with
      | linked target hlink' => cases hlink.symm.trans (hunderway.links _ _ hlink')
      | nothing _ hheld => exact Or.inl (.nothing hlink (hvalue.symm.trans hheld))
      | keyed model id target _ hheld hmodel hname hfinds =>
          rcases hfinds.of_underway hrooted hkeyed hrooted' hkeyed' hunderway with hbefore | hgiven
          · exact Or.inl (.keyed model id target hlink (hvalue.symm.trans hheld) hmodel hname hbefore)
          · exact Or.inr ⟨target, rfl, hgiven⟩

end

end Scope

end RecordStore
