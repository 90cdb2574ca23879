import RecordStore.Proofs.Integrity.IdentityMap
import RecordStore.Proofs.Scope.Imaging
import RecordStore.Proofs.Scope.Referring

/-!
# What collections hold

A collection of a record is made up by relationships of registered models, in the order of the registry
(`Registry.Consistent.mem_collection`).  Each of them contributes the records whose rows hold the key of the
record in the column of the relationship (`Scope.Contributes`), and all rows are those that are visible after
one flush (`Scope.backReference_gathers`).  So a record is in the collection as many times as it refers to the
owner by different ones of these relationships (`Scope.Gathers.count_eq`).
-/

namespace RecordStore

/-! ## Relationships that make up a collection -/

/-- The references that make up a collection of a model. -/
def Registry.collection (registry : Registry) (target name : String) : List BackReference :=
  (registry.backReferences target).filter fun reference => reference.name == name

/-- What a relationship of a model adds at its target. -/
def Model.addition (model : Model) (relationship : Relationship) : BackReference where
  name := model.relatedName
  source := model.name
  relationship := relationship.name
  column := relationship.column

theorem name_of_knownAmong {models : List Model} {name : String} {known : Model}
    (h : knownAmong models name = some known) : known.name = name := by
  have hfound := List.find?_some h
  simpa using hfound

/-- The references of a model to a target are what its relationships to the target add. -/
theorem Model.Compiled.mem_referencesTo {models : List Model} {model : Model}
    (h : model.Compiled (knownAmong models)) {target : String} {reference : BackReference} :
    reference ∈ model.referencesTo target ↔
      ∃ relationship ∈ model.relationships, relationship.target = target ∧
        model.addition relationship = reference := by
  unfold Model.referencesTo
  rw [List.mem_filterMap]
  constructor
  · rintro ⟨⟨field, type⟩, hfield, hadded⟩
    obtain ⟨_, names, parts, -, hparts, -, -, -, hrelationships⟩ := h
    obtain ⟨part, hpart, hcompile⟩ := exists_of_mem_forall₂ hparts hfield
    cases type with
    | reference name =>
        by_cases hname : name = target
        · subst hname
          simp only [if_true] at hadded
          cases hadded
          simp only [Blueprint.compileField] at hcompile
          cases hknown : knownAmong models name with
          | none =>
              simp only [hknown] at hcompile
              cases hcompile
          | some known =>
              simp only [hknown] at hcompile
              cases hcompile
              let relationship : Relationship := {
                name := field
                target := known.name
                column := referenceColumn field
                backReference := names.related }
              refine ⟨relationship, ?_, name_of_knownAmong hknown, rfl⟩
              rw [hrelationships]
              exact List.mem_filterMap.2 ⟨_, hpart, rfl⟩
        · simp only [hname, if_false] at hadded
          cases hadded
    | _ => cases hadded
  · rintro ⟨relationship, hmem, rfl, rfl⟩
    obtain ⟨names, field, name, known, hknown, hfield, -, hpart⟩ := h.relationship_part hmem
    cases hpart
    refine ⟨_, hfield, ?_⟩
    have hname : name = known.name := (name_of_knownAmong hknown).symm
    simp [hname, Model.addition]

/-- A collection is made up by the relationships to its owner of models with its name. -/
theorem Registry.Consistent.mem_collection {registry : Registry} (h : registry.Consistent)
    {target name : String} {reference : BackReference} :
    reference ∈ registry.collection target name ↔
      ∃ model ∈ registry.models, model.relatedName = name ∧
        ∃ relationship ∈ model.relationships, relationship.target = target ∧
          model.addition relationship = reference := by
  unfold Registry.collection
  rw [List.mem_filter, h.backReferences_eq, List.mem_flatMap]
  constructor
  · rintro ⟨⟨model, hmodel, hreference⟩, hname⟩
    obtain ⟨_, -, hcompiled⟩ := h.mem_compiled hmodel
    obtain ⟨relationship, hmem, htarget, rfl⟩ := hcompiled.mem_referencesTo.1 hreference
    exact ⟨model, hmodel, eq_of_beq hname, relationship, hmem, htarget, rfl⟩
  · rintro ⟨model, hmodel, rfl, relationship, hmem, htarget, rfl⟩
    obtain ⟨_, -, hcompiled⟩ := h.mem_compiled hmodel
    have hreference := hcompiled.mem_referencesTo.2 ⟨relationship, hmem, htarget, rfl⟩
    exact ⟨⟨model, hmodel, hreference⟩, beq_self_eq_true model.relatedName⟩

/-- A reference is by a column of references that a registered model has. -/
def Registry.Resolves (registry : Registry) (reference : BackReference) : Prop :=
  ∃ model ∈ registry.models, model.name = reference.source ∧
    ∃ column, model.ReferenceColumn column ∧ column.name = reference.column

theorem Registry.Consistent.resolves_collection {registry : Registry} (h : registry.Consistent)
    {target name : String} {reference : BackReference} (hmem : reference ∈ registry.collection target name) :
    registry.Resolves reference := by
  obtain ⟨model, hmodel, -, relationship, hrelationship, -, rfl⟩ := h.mem_collection.1 hmem
  obtain ⟨_, -, hcompiled⟩ := h.mem_compiled hmodel
  obtain ⟨column, hcolumn, hname⟩ := hcompiled.exists_referenceColumn hrelationship
  exact ⟨model, hmodel, rfl, column, hcolumn, hname⟩

namespace Scope

variable {env : Environment} {deleted : List (String × UInt64)}
  {scope before after : Scope} {handle : Handle} {entry : Entry} {model : Model} {column : Column}
  {id key : Int64} {name : String} {reference : BackReference} {references : List BackReference}
  {part handles : List Handle}

/-! ## Keys in rows -/

/-- The key that the row of a record holds in a column, as a scope sees the row. -/
def storedKey? (env : Environment) (scope : Scope) (record : Record) (column : String) : Option Int64 := do
  let id ← record.id
  let row ← (scope.visibleRow env record.model.tableName id.toUInt64).toOption.join
  let stored ← (getColumn row.data column).toOption
  (stored.getD .null).asInteger?

theorem asInteger?_eq_some {value : Value} {n : Int64} : value.asInteger? = some n ↔ value = .integer n := by
  cases value <;> simp [Value.asInteger?]

theorem storedKey?_eq_some {record : Record} {attr : String} :
    scope.storedKey? env record attr = some key ↔ ∃ id row stored, record.id = some id ∧
      scope.visibleRow env record.model.tableName id.toUInt64 = .ok (some row) ∧
      getColumn row.data attr = .ok stored ∧ stored.getD .null = .integer key := by
  unfold storedKey?
  constructor
  · intro h
    obtain ⟨id, hid, h⟩ := Option.bind_eq_some_iff.1 h
    obtain ⟨row, hrow, h⟩ := Option.bind_eq_some_iff.1 h
    obtain ⟨stored, hstored, h⟩ := Option.bind_eq_some_iff.1 h
    exact ⟨id, row, stored, hid, join_toOption_eq_some.1 hrow, toOption_eq_some.1 hstored,
      asInteger?_eq_some.1 h⟩
  · rintro ⟨id, row, stored, hid, hrow, hstored, hkey⟩
    refine Option.bind_eq_some_iff.2 ⟨id, hid, ?_⟩
    refine Option.bind_eq_some_iff.2 ⟨row, join_toOption_eq_some.2 hrow, ?_⟩
    exact Option.bind_eq_some_iff.2 ⟨stored, toOption_eq_some.2 hstored, asInteger?_eq_some.2 hkey⟩

section

variable (hregistry : env.registry.Consistent)
  (hcount : ∀ model ∈ env.registry.models, model.columns.length < 4294967296)

include hregistry hcount

/-- In a column of references a row is selected by the key that it holds. -/
theorem isSelected_reference (hmodel : model ∈ env.registry.models) (hcolumn : model.ReferenceColumn column)
    {row : StoredRow} {columns : List (String × Value)} (hwrote : model.Wrote row columns) :
    row.isSelected (some (column, .integer key)) = true ↔
      ∃ stored, getColumn row.data column.name = .ok stored ∧ stored.getD .null = .integer key := by
  obtain ⟨_, -, hcompiled⟩ := hregistry.mem_compiled hmodel
  have hadmits := hwrote.admits_column hcompiled.columns_nodup hcolumn.mem
  have hplain : column.kind.isEncoded = false := by
    rw [(hcompiled.of_reference hcolumn).1]
    rfl
  have hholds := hwrote.holds (hcount model hmodel)
  constructor
  · intro hselected
    obtain ⟨held, hread, hequal⟩ := (Option.any_eq_true _ _).1 hselected
    obtain ⟨hreadable, hload⟩ := hholds.read_eq_ok.1 (toOption_eq_some.1 hread)
    rw [hadmits.load_eq hplain] at hload
    cases hload
    obtain ⟨stored, hstored, hsame⟩ := hholds.getColumn_eq hreadable
    refine ⟨stored, hstored, hsame.trans ?_⟩
    generalize storedColumn columns column.name = held at hequal
    cases held <;> simp_all [Value.equals, Value.equalsScalar]
  · rintro ⟨stored, hstored, hkey⟩
    obtain ⟨hreadable, hsame⟩ := hholds.of_getColumn hstored
    rw [hkey] at hsame
    have hread : row.read column = .ok (.integer key) :=
      hholds.read_eq_ok.2 ⟨hreadable, by rw [hadmits.load_eq hplain, hsame]⟩
    refine (Option.any_eq_true _ _).2 ⟨.integer key, toOption_eq_some.2 hread, ?_⟩
    simp [Value.equals, Value.equalsScalar]

end

/-! ## Contributions -/

theorem Loads.atRest (h : before.Loads after) (hrest : before.AtRest) : after.AtRest :=
  ⟨h.settled hrest.settled, h.links.trans hrest.unlinked⟩

/-- The records of the rows that hold a key in the column of a reference, in the order of the rows. -/
def Contributes (env : Environment) (scope : Scope) (id : Int64) (reference : BackReference)
    (part : List Handle) : Prop :=
  ∃ model ∈ env.registry.models, model.name = reference.source ∧
    ∃ column, model.ReferenceColumn column ∧ column.name = reference.column ∧
    ∃ rows, scope.visibleRows env model.tableName = .ok rows ∧
      scope.Represents model (rows.toList.filter (·.2.isSelected (some (column, .integer id)))) part

theorem Contributes.loads (h : before.Contributes env id reference part) (hloads : before.Loads after) :
    after.Contributes env id reference part := by
  obtain ⟨model, hmodel, hsource, column, hcolumn, hname, rows, hrows, hrepresents⟩ := h
  exact ⟨model, hmodel, hsource, column, hcolumn, hname, rows, (hloads.visibleRows _).trans hrows,
    hrepresents.loads hloads⟩

/-- What a collection of a record holds, which is nothing as long as the record has no key. -/
inductive Gathers (env : Environment) (scope : Scope) (owner : Record) (name : String) :
    List Handle → Prop where
  | keyless : owner.id = none → Gathers env scope owner name []
  | keyed (id : Int64) (parts : List (List Handle)) : owner.id = some id →
      List.Forall₂ (scope.Contributes env id) (env.registry.collection owner.modelName name) parts →
      Gathers env scope owner name parts.flatten

section

variable (hregistry : env.registry.Consistent)
  (hcount : ∀ model ∈ env.registry.models, model.columns.length < 4294967296)

include hregistry hcount

theorem findAll_contributes
    (hsound : ∀ flushed, (flush env).run scope = .ok () flushed → flushed.SoundRows env deleted)
    (hreference : env.registry.Resolves reference) (id : Int64) :
    (findAll env reference.source reference.column (.integer id)).Ends scope
      (fun part after => ∃ flushed, (flush env).run scope = .ok () flushed ∧ flushed.Loads after ∧
        after.Contributes env id reference part)
      (fun _ => True) := by
  refine (select_selected hregistry hcount hsound _ _).mono ?_ fun _ _ => trivial
  rintro part after ⟨model, hmodel, hsource, resolved, hresolved, flushed, rows, hselected⟩
  obtain ⟨other, hother, hname, column, hcolumn, hcolumnName⟩ := hreference
  obtain rfl := hregistry.eq_of_name hother hmodel (hname.trans hsource.symm)
  obtain ⟨_, -, hcompiled⟩ := hregistry.mem_compiled hmodel
  have hattr := hcompiled.attributeColumn?_eq hcolumn.mem (Or.inl hcolumnName.symm)
  simp only [resolveFilter, hattr] at hresolved
  cases hresolved
  exact ⟨flushed, hselected.flushes, hselected.loads, _, hmodel, hsource, column, hcolumn, hcolumnName,
    rows, (hselected.loads.visibleRows _).trans hselected.visible, hselected.represents⟩

/-- In a scope at rest each reference contributes, and nothing is flushed between them. -/
theorem referring_of_rest (hsound : scope.SoundRows env deleted) (hrest : scope.AtRest)
    (hreferences : ∀ reference ∈ references, env.registry.Resolves reference) (id : Int64) :
    (referring env id references).Ends scope
      (fun handles after => scope.Loads after ∧ ∃ parts, handles = parts.flatten ∧
        List.Forall₂ (after.Contributes env id) references parts)
      (fun _ => True) := by
  induction references generalizing scope with
  | nil => exact ScopeM.ends_pure ⟨.refl scope, [], rfl, .nil⟩
  | cons reference rest ih =>
      have hsame : ∀ flushed, (flush env).run scope = .ok () flushed → flushed = scope := fun _ hflush =>
        (flush_of_rest env hrest).of_ok hflush
      unfold referring
      refine ScopeM.ends_bind (findAll_contributes hregistry hcount
        (fun flushed hflush => hsame flushed hflush ▸ hsound) (hreferences reference List.mem_cons_self) id) ?_
      rintro part middle ⟨flushed, hflush, hloads, hpart⟩
      obtain rfl := hsame flushed hflush
      refine ScopeM.ends_bind (ih (hsound.congr hloads.staged) (hloads.atRest hrest)
        fun other hother => hreferences other (List.mem_cons_of_mem _ hother)) ?_
      rintro others last ⟨hlater, parts, rfl, hparts⟩
      exact ScopeM.ends_pure ⟨hloads.trans hlater, part :: parts, rfl, .cons (hpart.loads hlater) hparts⟩

/-- With the first reference the scope is flushed. -/
theorem referring_of_flush
    (hsound : ∀ flushed, (flush env).run scope = .ok () flushed → flushed.SoundRows env deleted)
    (hsome : references ≠ []) (hreferences : ∀ reference ∈ references, env.registry.Resolves reference)
    (id : Int64) :
    (referring env id references).Ends scope
      (fun handles after => ∃ flushed, (flush env).run scope = .ok () flushed ∧ flushed.Loads after ∧
        ∃ parts, handles = parts.flatten ∧ List.Forall₂ (after.Contributes env id) references parts)
      (fun _ => True) := by
  cases references with
  | nil => exact absurd rfl hsome
  | cons reference rest =>
      unfold referring
      refine ScopeM.ends_bind (findAll_contributes hregistry hcount hsound
        (hreferences reference List.mem_cons_self) id) ?_
      rintro part middle ⟨flushed, hflush, hloads, hpart⟩
      have hrest := (flush_rests env scope).of_ok hflush
      refine ScopeM.ends_bind (referring_of_rest hregistry hcount
        ((hsound flushed hflush).congr hloads.staged) (hloads.atRest hrest)
        (fun other hother => hreferences other (List.mem_cons_of_mem _ hother)) id) ?_
      rintro others last ⟨hlater, parts, rfl, hparts⟩
      exact ScopeM.ends_pure ⟨flushed, hflush, hloads.trans hlater, part :: parts, rfl,
        .cons (hpart.loads hlater) hparts⟩

/-- A collection gathers what its references contribute after one flush. -/
theorem backReference_gathers (hrooted : scope.Rooted env)
    (hsound : ∀ flushed, (flush env).run scope = .ok () flushed → flushed.SoundRows env deleted)
    (handle : Handle) (name : String) :
    (backReference env handle name).Ends scope
      (fun handles after => ∃ flushed owner, (flush env).run scope = .ok () flushed ∧
        flushed.Loads after ∧ after.entries[handle]? = some owner ∧
        after.Gathers env owner.record name handles)
      (fun _ => True) := by
  let terms : Terms := { grounded := False, undeleted := False }
  have hflushed : (flush env).Ends scope (fun _ => scope.Reaches env terms) (scope.Reaches env terms) :=
    flush_reaches hrooted scope Relation.ReflTransGen.refl
  unfold backReference
  refine ScopeM.ends_record_bind ?_ trivial
  intro entry hentry
  -- A flush leaves the record its model and the key that it has.
  have hkept : ∀ flushed, (flush env).run scope = .ok () flushed → ∃ owner,
      flushed.entries[handle]? = some owner ∧ owner.record.modelName = entry.record.modelName ∧
      ∀ id, entry.record.id = some id → owner.record.id = some id := by
    intro flushed hflush
    obtain ⟨s, hs, hmodel, hid⟩ := reaches_carries (hflushed.of_ok hflush) (standing_of_entry hentry)
    obtain ⟨owner, howner, rfl⟩ := Option.map_eq_some_iff.1 hs
    exact ⟨owner, howner, congrArg Model.name hmodel, hid⟩
  have hreferences : ∀ reference ∈ env.registry.collection entry.record.modelName name,
      env.registry.Resolves reference := fun _ hmem => hregistry.resolves_collection hmem
  change ScopeM.Ends (if (env.registry.collection entry.record.modelName name).isEmpty then _ else _) _ _ _
  split
  case isTrue => exact ScopeM.ends_throw trivial
  case isFalse hsome =>
    split
    case isTrue =>
      refine ScopeM.ends_bind (ScopeM.ends_run (flush env) scope) ?_
      intro _ flushed hflush
      obtain ⟨owner, howner, hmodel, -⟩ := hkept flushed hflush
      refine ScopeM.ends_record_bind_of_some howner ?_
      cases hid : owner.record.id with
      | none => exact ScopeM.ends_pure ⟨flushed, owner, hflush, .refl flushed, howner, .keyless hid⟩
      | some id =>
          refine (referring_of_rest hregistry hcount (hsound flushed hflush)
            ((flush_rests env scope).of_ok hflush) hreferences id).mono ?_ fun _ _ => trivial
          rintro _ after ⟨hloads, parts, rfl, hparts⟩
          rw [← hmodel] at hparts
          exact ⟨flushed, owner, hflush, hloads, hloads.getElem? howner, .keyed id parts hid hparts⟩
    case isFalse hkeyed =>
      obtain ⟨id, hid⟩ := Option.ne_none_iff_exists'.1 (mt Option.isNone_iff_eq_none.2 hkeyed)
      refine ScopeM.ends_record_bind_of_some hentry ?_
      simp only [hid]
      refine (referring_of_flush hregistry hcount hsound (mt List.isEmpty_iff.2 hsome) hreferences id).mono
        ?_ fun _ _ => trivial
      rintro _ after ⟨flushed, hflush, hloads, parts, rfl, hparts⟩
      obtain ⟨owner, howner, hmodel, hkey⟩ := hkept flushed hflush
      rw [← hmodel] at hparts
      exact ⟨flushed, owner, hflush, hloads, hloads.getElem? howner, .keyed id parts (hkey id hid) hparts⟩

end

/-! ## How often a record is in a collection -/

/-- The references by which a record is in a collection: those by which it refers to the owner in its row. -/
def memberships (env : Environment) (scope : Scope) (owner : Record) (name : String) (record : Record) :
    List BackReference :=
  match owner.id with
  | some id => (env.registry.collection owner.modelName name).filter fun reference =>
      reference.source == record.modelName && scope.storedKey? env record reference.column == some id
  | none => []

/-- A record refers by relationships of its model that lead to the owner and by which its row holds the key. -/
theorem mem_memberships (hregistry : env.registry.Consistent) {owner record : Record}
    (hmodel : record.model ∈ env.registry.models) :
    reference ∈ scope.memberships env owner name record ↔ record.model.relatedName = name ∧
      ∃ relationship ∈ record.model.relationships, relationship.target = owner.modelName ∧
        record.model.addition relationship = reference ∧
        ∃ key, owner.id = some key ∧ scope.storedKey? env record relationship.column = some key := by
  unfold memberships
  cases hid : owner.id with
  | none => simp
  | some id =>
      simp only [List.mem_filter, hregistry.mem_collection, Bool.and_eq_true, beq_iff_eq]
      constructor
      · rintro ⟨⟨model, hmem, hrelated, relationship, hrelationship, htarget, rfl⟩, hsource, hstored⟩
        obtain rfl := hregistry.eq_of_name hmem hmodel hsource
        exact ⟨hrelated, relationship, hrelationship, htarget, rfl, id, rfl, hstored⟩
      · rintro ⟨hrelated, relationship, hrelationship, htarget, rfl, _, hkey, hstored⟩
        cases hkey
        exact ⟨⟨record.model, hmodel, hrelated, relationship, hrelationship, htarget, rfl⟩, rfl, hstored⟩

namespace Represents

variable {rows : List (UInt64 × StoredRow)}

/-- Different rows are represented by different records. -/
theorem nodup (hrooted : scope.Rooted env) (hdistinct : (rows.map (·.1)).Nodup)
    (h : scope.Represents model rows part) : part.Nodup := by
  induction h with
  | nil => exact List.nodup_nil
  | @cons row handle rest later hfirst hrest ih =>
      rw [List.map_cons, List.nodup_cons] at hdistinct
      refine List.nodup_cons.2 ⟨?_, ih hdistinct.2⟩
      intro hagain
      obtain ⟨id, hid, hfind⟩ := hfirst
      obtain ⟨other, hother, id', hid', hfind'⟩ := exists_of_mem_forall₂ hrest.flip hagain
      obtain ⟨-, rfl⟩ := (hrooted.standsFor hfind).unique (hrooted.standsFor hfind')
      have hnumber := (keyOf_eq_ok hid).2
      rw [(keyOf_eq_ok hid').2] at hnumber
      exact hdistinct.1 (hnumber ▸ List.mem_map_of_mem hother)

/-- A record is among those that represent rows exactly if the row with its key is one of the rows. -/
theorem mem_iff (hrooted : scope.Rooted env) (h : scope.Represents model rows part)
    (hfind : scope.identity.find? (model.name, key) = some handle) :
    handle ∈ part ↔ ∃ row ∈ rows, row.1 = key.toUInt64 := by
  constructor
  · intro hmem
    obtain ⟨row, hrow, id, hid, hfind'⟩ := exists_of_mem_forall₂ h.flip hmem
    obtain ⟨-, rfl⟩ := (hrooted.standsFor hfind).unique (hrooted.standsFor hfind')
    exact ⟨row, hrow, (keyOf_eq_ok hid).2.symm⟩
  · rintro ⟨row, hrow, hnumber⟩
    obtain ⟨other, hother, id, hid, hfind'⟩ := exists_of_mem_forall₂ h hrow
    obtain rfl : id = key := toUInt64_injective ((keyOf_eq_ok hid).2.trans hnumber)
    rwa [Option.some.inj (hfind.symm.trans hfind')]

end Represents

section

variable (hregistry : env.registry.Consistent)
  (hcount : ∀ model ∈ env.registry.models, model.columns.length < 4294967296)
  (hrooted : scope.Rooted env) (hsound : scope.SoundRows env deleted)
  (hentry : scope.entries[handle]? = some entry)
  (hfind : scope.identity.find? (entry.record.modelName, key) = some handle)

include hregistry hcount hrooted hsound hentry hfind

/-- A reference contributes the records of its model that refer by it in their rows. -/
theorem Contributes.mem_iff (h : scope.Contributes env id reference part) :
    handle ∈ part ↔ reference.source = entry.record.modelName ∧
      scope.storedKey? env entry.record reference.column = some id := by
  obtain ⟨model, hmodel, hsource, column, hcolumn, hname, rows, hrows, hrepresents⟩ := h
  obtain ⟨_, hentry', -, hid⟩ := hrooted.standsFor hfind
  obtain rfl := Option.some.inj (hentry.symm.trans hentry')
  have hregistered := hrooted.mem_models hentry
  -- The row of the record is among those of the model if it is one of them.
  have hselected : model = entry.record.model → (handle ∈ part ↔
      scope.storedKey? env entry.record reference.column = some id) := by
    rintro rfl
    rw [hrepresents.mem_iff hrooted hfind, storedKey?_eq_some]
    constructor
    · rintro ⟨⟨number, row⟩, hmem, rfl⟩
      obtain ⟨hmem, hselected⟩ := List.mem_filter.1 hmem
      have hrow := find?_visibleRows hrows key.toUInt64
      rw [SortedMap.find?_eq_some_iff.2 hmem] at hrow
      obtain ⟨columns, hwrote⟩ := hsound.written _ hmodel _ row hrow
      obtain ⟨stored, hstored, hkey⟩ :=
        (isSelected_reference hregistry hcount hmodel hcolumn hwrote).1 hselected
      exact ⟨key, row, stored, hid, hrow, hname ▸ hstored, hkey⟩
    · rintro ⟨_, row, stored, hid', hrow, hstored, hkey⟩
      obtain rfl := Option.some.inj (hid.symm.trans hid')
      obtain ⟨columns, hwrote⟩ := hsound.written _ hmodel _ row hrow
      rw [find?_visibleRows hrows, Except.ok.injEq, SortedMap.find?_eq_some_iff] at hrow
      refine ⟨_, List.mem_filter.2 ⟨hrow, ?_⟩, rfl⟩
      exact (isSelected_reference hregistry hcount hmodel hcolumn hwrote).2
        ⟨stored, hname.symm ▸ hstored, hkey⟩
  constructor
  · intro hmem
    obtain ⟨_, hfind'⟩ := hrepresents.exists_key hmem
    obtain ⟨hsame, -⟩ := (hrooted.standsFor hfind).unique (hrooted.standsFor hfind')
    exact ⟨hsource.symm.trans hsame,
      (hselected (hregistry.eq_of_name hmodel hregistered hsame)).1 hmem⟩
  · rintro ⟨hsame, hstored⟩
    exact (hselected (hregistry.eq_of_name hmodel hregistered (hsource.trans hsame))).2 hstored

/-- A record is in a collection as many times as there are references by which it refers to the owner. -/
theorem Gathers.count_eq {owner : Record} (h : scope.Gathers env owner name handles) :
    handles.count handle = (scope.memberships env owner name entry.record).length := by
  cases h with
  | keyless hnone => simp [memberships, hnone]
  | keyed id parts hid hparts =>
      simp only [memberships, hid]
      generalize env.registry.collection owner.modelName name = references at hparts
      induction hparts with
      | nil => rfl
      | @cons reference part rest others hpart _ ih =>
          rw [List.flatten_cons, List.count_append, ih, List.filter_cons]
          have hmem := hpart.mem_iff hregistry hcount hrooted hsound hentry hfind
          by_cases hrefers : handle ∈ part
          · obtain ⟨hsource, hstored⟩ := hmem.1 hrefers
            obtain ⟨model, -, -, column, -, -, rows, -, hrepresents⟩ := hpart
            have honce : part.Nodup := hrepresents.nodup hrooted
              (rows.sorted.nodup_keys.sublist (List.filter_sublist.map _))
            simp [hsource, hstored, List.count_eq_one_of_mem honce hrefers, Nat.add_comm]
          · have hnone : ¬(reference.source = entry.record.modelName ∧
                scope.storedKey? env entry.record reference.column = some id) := mt hmem.2 hrefers
            simp [hnone, List.count_eq_zero_of_not_mem hrefers]

end

/-- What is in a collection is what a key stands for. -/
theorem Gathers.exists_key {owner : Record} (h : scope.Gathers env owner name handles)
    (hmem : handle ∈ handles) : ∃ name key, scope.identity.find? (name, key) = some handle := by
  cases h with
  | keyless => cases hmem
  | keyed id parts _ hparts =>
      obtain ⟨part, hpart, hmem⟩ := List.mem_flatten.1 hmem
      obtain ⟨_, -, model, -, -, _, -, -, _, -, hrepresents⟩ := exists_of_mem_forall₂ hparts.flip hpart
      obtain ⟨key, hfind⟩ := hrepresents.exists_key hmem
      exact ⟨model.name, key, hfind⟩

end Scope

end RecordStore
