import Mathlib.Logic.Relation
import RecordStore.Proofs.Distinct
import RecordStore.Proofs.Schema.Composition

/-!
# Chains of declarations

A blueprint extends another one when a declaration over the first composes to the second
(`Blueprint.Extends`).  This file follows the fields of a blueprint along a chain of such steps.

* `Extended fields fields'`: each field of `fields` stands at its place in `fields'`, with the same
  name, and with the same kind unless it was abstract; `fields'` may go on with more fields.
* `DeclaredFields fields`: the fields start with the key and the mapping for further data, and have
  distinct, non-empty names that are not reserved.

Both are preserved by one override, hence by one declaration, hence by a chain.
-/

namespace RecordStore

/-! ## Fields under overrides -/

/-- The fields of an ancestor, in their order, at the front of the fields of a descendant. -/
inductive Extended : List (String × FieldType) → List (String × FieldType) → Prop where
  | added (fields : List (String × FieldType)) : Extended [] fields
  | field {name : String} {old new : FieldType} {rest rest' : List (String × FieldType)} :
      (old.isAbstract = false → new = old) → Extended rest rest' →
      Extended ((name, old) :: rest) ((name, new) :: rest')

namespace Extended

variable {fields fields' fields'' : List (String × FieldType)}

theorem refl (fields : List (String × FieldType)) : Extended fields fields := by
  induction fields with
  | nil => exact .added []
  | cons field rest ih => exact .field (fun _ => rfl) ih

theorem trans (h : Extended fields fields') (h' : Extended fields' fields'') :
    Extended fields fields'' := by
  induction h generalizing fields'' with
  | added _ => exact .added fields''
  | field hkind _ ih =>
      cases h' with
      | field hkind' hrest' =>
          refine .field (fun hconcrete => ?_) (ih hrest')
          obtain rfl := hkind hconcrete
          exact hkind' hconcrete

theorem names_prefix (h : Extended fields fields') :
    fields.map (·.1) <+: fields'.map (·.1) := by
  induction h with
  | added _ => exact List.nil_prefix
  | field _ _ ih =>
      rw [List.map_cons, List.map_cons]
      exact (List.prefix_cons_inj _).2 ih

/-- What is declared in full is there unchanged. -/
theorem mem_of_concrete (h : Extended fields fields') {name : String} {type : FieldType}
    (hmem : (name, type) ∈ fields) (hconcrete : type.isAbstract = false) :
    (name, type) ∈ fields' := by
  induction h with
  | added _ => cases hmem
  | field hkind _ ih =>
      rcases List.mem_cons.1 hmem with heq | hrest
      · cases heq
        rw [hkind hconcrete]
        exact List.mem_cons_self
      · exact List.mem_cons_of_mem _ (ih hrest)

/-- Neither field of the base is abstract, so both stay what they are. -/
theorem of_base (h : Extended Blueprint.base.fields fields) :
    ∃ added, fields = ("id", .primaryKey) :: ("data", .primitive .mapping) :: added := by
  cases h with
  | field hkey hrest =>
      cases hrest with
      | field hdata _ =>
          rw [hkey rfl, hdata rfl]
          exact ⟨_, rfl⟩

end Extended

/-- A field is filled only when it is abstract, and added only at the end. -/
theorem extended_of_defineField? {name : String} {type : FieldType}
    {fields fields' : List (String × FieldType)}
    (h : defineField? name type fields = some fields') : Extended fields fields' := by
  induction fields generalizing fields' with
  | nil => exact .added fields'
  | cons field rest ih =>
      obtain ⟨other, old⟩ := field
      unfold defineField? at h
      by_cases hname : other = name
      · rw [if_pos hname] at h
        by_cases hold : old.isAbstract = true
        · rw [if_pos hold] at h
          cases h
          refine .field (fun hconcrete => ?_) (.refl rest)
          rw [hold] at hconcrete
          cases hconcrete
        · rw [if_neg hold] at h
          cases h
      · rw [if_neg hname] at h
        obtain ⟨rest', hrest, rfl⟩ := Option.map_eq_some_iff.1 h
        exact .field (fun _ => rfl) (ih hrest)

/-- What a chain of declarations from the base keeps true of fields. -/
structure DeclaredFields (fields : List (String × FieldType)) : Prop where
  sound : FieldsSound fields
  base_first : Extended Blueprint.base.fields fields
  names_nonempty : ∀ field ∈ fields, field.1 ≠ ""

theorem DeclaredFields.applyOverride {model : String} {fields fields' : List (String × FieldType)}
    {override : String × FieldDeclaration} (hdeclared : DeclaredFields fields)
    (h : applyOverride model fields override = .ok fields') : DeclaredFields fields' := by
  obtain ⟨hname, -, type, hdefine⟩ := applyOverride_eq_ok h
  refine ⟨hdeclared.sound.applyOverride h,
    hdeclared.base_first.trans (extended_of_defineField? hdefine), ?_⟩
  intro field hfield
  have hmem : field.1 ∈ fields'.map (·.1) := List.mem_map_of_mem hfield
  rcases defineField?_cases hdefine with hsame | ⟨-, rfl⟩
  · rw [hsame] at hmem
    obtain ⟨old, hold, heq⟩ := List.mem_map.1 hmem
    rw [← heq]
    exact hdeclared.names_nonempty old hold
  · rcases List.mem_append.1 hfield with hold | hadded
    · exact hdeclared.names_nonempty field hold
    · obtain rfl := List.mem_singleton.1 hadded
      exact hname

/-! ## One declaration -/

theorem Declaration.require_eq_ok {model attr value : String} {declared : Option String}
    (h : require model attr declared = .ok value) : value ≠ "" := by
  cases declared with
  | none => cases h
  | some text =>
      change (if text.isEmpty then Except.error _ else Except.ok text) = .ok value at h
      by_cases hempty : text.isEmpty = true
      · rw [if_pos hempty] at h
        cases h
      · rw [if_neg hempty] at h
        cases h
        exact fun htext => hempty (String.isEmpty_iff.2 htext)

namespace Blueprint

/-- The descendant is what some declaration over the ancestor composes to. -/
def Extends (ancestor descendant : Blueprint) : Prop :=
  ∃ declaration : Declaration,
    declaration.ancestor = ancestor ∧ declaration.compose = .ok descendant

/-- What a model needs to have a table. -/
structure Complete (blueprint : Blueprint) (names : ModelNames) : Prop where
  table_nonempty : names.table ≠ ""
  related_nonempty : names.related ≠ ""
  fields_concrete : ∀ field ∈ blueprint.fields, field.2.isAbstract = false

variable {ancestor descendant : Blueprint}

theorem Extends.extended (h : Extends ancestor descendant) :
    Extended ancestor.fields descendant.fields := by
  obtain ⟨declaration, rfl, hcompose⟩ := h
  refine foldlM_invariant ?_ (.refl _) (fields_of_compose hcompose)
  intro override _ fields fields' hfields hstep
  obtain ⟨-, -, type, hdefine⟩ := applyOverride_eq_ok hstep
  exact hfields.trans (extended_of_defineField? hdefine)

theorem Extends.declaredFields (h : Extends ancestor descendant)
    (hdeclared : DeclaredFields ancestor.fields) : DeclaredFields descendant.fields := by
  obtain ⟨declaration, rfl, hcompose⟩ := h
  refine foldlM_invariant ?_ hdeclared (fields_of_compose hcompose)
  intro override _ fields fields' hfields hstep
  exact hfields.applyOverride hstep

/-- A model with names was declared concrete, so its names were required and its fields checked. -/
theorem Extends.complete (h : Extends ancestor descendant) {names : ModelNames}
    (hnames : descendant.names = some names) : descendant.Complete names := by
  obtain ⟨declaration, -, hcompose⟩ := h
  obtain ⟨hresolve, -, hconcrete⟩ := compose_eq_ok hcompose
  rw [hnames] at hresolve
  unfold Declaration.resolveNames at hresolve
  by_cases habstract : declaration.isAbstract = true
  · simp only [habstract, if_true] at hresolve
    cases hresolve
  · simp only [habstract, if_false, Bool.false_eq_true] at hresolve
    obtain ⟨table, htable, hresolve⟩ := bind_eq_ok.1 hresolve
    obtain ⟨related, hrelated, hresolve⟩ := bind_eq_ok.1 hresolve
    cases pure_eq_ok.1 hresolve
    exact ⟨Declaration.require_eq_ok htable, Declaration.require_eq_ok hrelated,
      hconcrete (by simpa using habstract)⟩

/-- A composed blueprint with names is complete. -/
theorem Composed.complete {blueprint : Blueprint} (h : blueprint.Composed) {names : ModelNames}
    (hnames : blueprint.names = some names) : blueprint.Complete names := by
  cases h with
  | base => cases hnames
  | compose _ hcompose => exact Extends.complete ⟨_, rfl, hcompose⟩ hnames

/-! ## Chains -/

theorem extended_of_chain (h : Relation.ReflTransGen Extends ancestor descendant) :
    Extended ancestor.fields descendant.fields := by
  induction h with
  | refl => exact .refl _
  | tail _ hstep ih => exact ih.trans hstep.extended

theorem declaredFields_of_chain (h : Relation.ReflTransGen Extends base descendant) :
    DeclaredFields descendant.fields := by
  induction h with
  | refl => exact ⟨base_fieldsSound, .refl _, by decide⟩
  | tail _ hstep ih => exact hstep.declaredFields ih

theorem complete_of_chain (h : Relation.ReflTransGen Extends base descendant) {names : ModelNames}
    (hnames : descendant.names = some names) : descendant.Complete names := by
  cases h with
  | refl => cases hnames
  | tail _ hstep => exact hstep.complete hnames

/-- With distinct names, the field of a name is the member of that name. -/
theorem field?_eq_some_iff {blueprint : Blueprint} (hnodup : (blueprint.fields.map (·.1)).Nodup)
    {name : String} {type : FieldType} :
    blueprint.field? name = some type ↔ (name, type) ∈ blueprint.fields := by
  unfold field?
  rw [Option.map_eq_some_iff]
  constructor
  · rintro ⟨⟨other, kind⟩, hfind, rfl⟩
    obtain ⟨hmem, rfl⟩ := (find?_name_eq_some_iff hnodup).1 hfind
    exact hmem
  · intro hmem
    exact ⟨(name, type), (find?_name_eq_some_iff hnodup).2 ⟨hmem, rfl⟩, rfl⟩

/-- Whatever the declarations of a chain are, a blueprint has distinct, usable names behind the two
fields of the base, a concrete one is complete, and it has all fields of each ancestor in their
order, those that were not abstract with the same kind. -/
theorem chain_invariant (hancestor : Relation.ReflTransGen Extends base ancestor)
    (hdescendant : Relation.ReflTransGen Extends ancestor descendant) :
    (descendant.fields.map (·.1)).Nodup ∧
      (∀ field ∈ descendant.fields, field.1 ≠ "" ∧ field.1.toList.head? ≠ some '_') ∧
      (∃ added, descendant.fields =
        ("id", .primaryKey) :: ("data", .primitive .mapping) :: added) ∧
      (descendant.isAbstract = false →
        ∃ names, descendant.names = some names ∧ descendant.Complete names) ∧
      ancestor.fields.map (·.1) <+: descendant.fields.map (·.1) ∧
      ∀ name type, ancestor.field? name = some type → type.isAbstract = false →
        descendant.field? name = some type := by
  have hbase := hancestor.trans hdescendant
  have hdeclared := declaredFields_of_chain hbase
  have hextended := extended_of_chain hdescendant
  refine ⟨hdeclared.sound.names_nodup, ?_, ?_, ?_, hextended.names_prefix, ?_⟩
  · intro field hfield
    refine ⟨hdeclared.names_nonempty field hfield, fun hhead => ?_⟩
    have hunreserved := hdeclared.sound.unreserved field hfield
    simp [isReserved, hhead] at hunreserved
  · exact hdeclared.base_first.of_base
  · intro hconcrete
    cases hnames : descendant.names with
    | none => simp [isAbstract, hnames] at hconcrete
    | some names => exact ⟨names, rfl, complete_of_chain hbase hnames⟩
  · intro name type hfield hconcrete
    rw [field?_eq_some_iff (declaredFields_of_chain hancestor).sound.names_nodup] at hfield
    rw [field?_eq_some_iff hdeclared.sound.names_nodup]
    exact hextended.mem_of_concrete hfield hconcrete

/-- A template that gives its title in full and leaves its body to descendants. -/
def article : Blueprint where
  name := "Article"
  names := none
  fields := base.fields ++ [("title", .primitive .text), ("body", .abstractField)]

/-- An article with its body filled and a field of its own. -/
def report : Blueprint where
  name := "Report"
  names := some { table := "reports", related := "reports" }
  fields := base.fields ++
    [("title", .primitive .text), ("body", .primitive .list), ("pages", .primitive .integer)]

theorem base_extends_article : Extends base article :=
  ⟨{ name := "Article"
     isAbstract := true
     overrides := [("title", .typed (.primitive .text)), ("body", .named "abstract")] },
    rfl, rfl⟩

theorem article_extends_report : Extends article report :=
  ⟨{ name := "Report"
     ancestor := article
     tableName := some "reports"
     relatedName := some "reports"
     overrides := [("body", .named "list"), ("pages", .typed (.primitive .integer))] },
    rfl, rfl⟩

theorem chain_invariant_report :
    Relation.ReflTransGen Extends base article ∧ Relation.ReflTransGen Extends article report ∧
      (report.fields.map (·.1)).Nodup ∧ report.field? "title" = some (.primitive .text) := by
  have hbase := Relation.ReflTransGen.single base_extends_article
  have hreport := Relation.ReflTransGen.single article_extends_report
  obtain ⟨hnodup, -, -, -, -, hkept⟩ := chain_invariant hbase hreport
  exact ⟨hbase, hreport, hnodup, hkept "title" (.primitive .text) rfl rfl⟩

end Blueprint

end RecordStore
