import RecordStore.Proofs.Schema.Chains

/-!
# Declaring a model in stages

Overrides may be split between a template and the model that extends it.  The template is abstract,
so it needs no names and may leave fields open; only the concrete model at the end is asked for both
(`Declaration.template`, `Declaration.concrete`).

What an override does to the fields does not depend on the model that declares it, except for the
model that a fault names (`applyOverride_inModel`).  So a run of overrides can be cut anywhere: the
template, with the rest over it, composes to the very blueprint that one declaration gives, and where
the declaration fails it fails at the same override.
-/

namespace RecordStore

/-! ## Faults and the model they name -/

/-- The same fault of another model. -/
def FieldError.inModel (model : String) : FieldError → FieldError
  | invalidType _ field kind => .invalidType model field kind
  | emptyName _ => .emptyName model
  | reservedPrefix _ field => .reservedPrefix model field
  | redefinition _ field => .redefinition model field
  | unresolvedAbstract _ field => .unresolvedAbstract model field
  | missingAttribute _ attr => .missingAttribute model attr

theorem FieldDeclaration.resolve_inModel (model other field : String)
    (declared : FieldDeclaration) :
    (declared.resolve other field).mapError (.inModel model) = declared.resolve model field := by
  cases declared with
  | typed type => rfl
  | named token =>
      simp only [resolve]
      cases FieldType.ofToken? token with
      | some type => rfl
      | none => rfl

/-- An override does the same to the fields of any model, and fails for the same reason. -/
theorem applyOverride_inModel (model other : String) (fields : List (String × FieldType))
    (override : String × FieldDeclaration) :
    (applyOverride other fields override).mapError (.inModel model) =
      applyOverride model fields override := by
  obtain ⟨name, declared⟩ := override
  unfold applyOverride
  by_cases hempty : name.isEmpty = true
  · simp only [hempty, if_true]
    rfl
  · by_cases hreserved : isReserved name = true
    · simp only [hempty, hreserved, if_true]
      rfl
    · simp only [hempty, hreserved, if_false, Bool.false_eq_true]
      refine mapError_bind.trans ?_
      rw [FieldDeclaration.resolve_inModel]
      congr 1
      funext type
      cases defineField? name type fields with
      | some defined => rfl
      | none => rfl

/-- So does a run of overrides. -/
theorem foldlM_applyOverride_inModel (model other : String) (fields : List (String × FieldType))
    (overrides : List (String × FieldDeclaration)) :
    (overrides.foldlM (applyOverride other) fields).mapError (.inModel model) =
      overrides.foldlM (applyOverride model) fields := by
  induction overrides generalizing fields with
  | nil => rfl
  | cons override rest ih =>
      rw [List.foldlM_cons, List.foldlM_cons, mapError_bind, applyOverride_inModel]
      congr 1
      funext next
      exact ih next

/-! ## Declarations over any ancestor -/

namespace Declaration

/-- The declaration as a template: abstract, with these overrides of this ancestor. -/
def template (declaration : Declaration) (ancestor : Blueprint)
    (overrides : List (String × FieldDeclaration)) : Declaration :=
  { declaration with ancestor, isAbstract := true, overrides }

/-- The declaration as a model with a table, with these overrides of this ancestor. -/
def concrete (declaration : Declaration) (ancestor : Blueprint)
    (overrides : List (String × FieldDeclaration)) : Declaration :=
  { declaration with ancestor, isAbstract := false, overrides }

/-- What a declaration makes of its names and fields. -/
def blueprint (declaration : Declaration) (names : Option ModelNames)
    (fields : List (String × FieldType)) : Blueprint where
  name := declaration.name
  names
  fields
  doc := declaration.doc
  extra := declaration.extra

/-- The end of a concrete composition: the fields have to be complete. -/
def finish (declaration : Declaration) (names : Option ModelNames)
    (fields : List (String × FieldType)) : Except FieldError Blueprint :=
  match fields.find? fun entry => entry.2.isAbstract with
  | some (field, _) => .error (.unresolvedAbstract declaration.name field)
  | none => .ok (declaration.blueprint names fields)

variable {declaration : Declaration} {ancestor : Blueprint}
  {overrides first second : List (String × FieldDeclaration)}

/-- A template composes when its overrides apply: nothing else is asked of it. -/
theorem compose_template {outline : Declaration} :
    (outline.template ancestor overrides).compose =
      overrides.foldlM (applyOverride outline.name) ancestor.fields >>= fun fields =>
        .ok (outline.blueprint none fields) := by
  unfold compose
  refine congrArg (overrides.foldlM (applyOverride outline.name) ancestor.fields >>= ·) ?_
  funext fields
  have hnone : (fields.find? fun entry =>
      entry.2.isAbstract && !(outline.template ancestor overrides).isAbstract) = none :=
    List.find?_eq_none.2 fun entry _ => by simp [template]
  rw [hnone]
  rfl

/-- A model with a table needs its names first, and is complete in the end. -/
theorem compose_concrete :
    (declaration.concrete ancestor overrides).compose =
      (declaration.concrete ancestor overrides).resolveNames >>= fun names =>
        overrides.foldlM (applyOverride declaration.name) ancestor.fields >>=
          declaration.finish names := by
  unfold compose
  refine congrArg ((declaration.concrete ancestor overrides).resolveNames >>= ·) ?_
  funext names
  refine congrArg (overrides.foldlM (applyOverride declaration.name) ancestor.fields >>= ·) ?_
  funext fields
  simp only [concrete, finish, Bool.not_false, Bool.and_true]
  cases fields.find? fun entry => entry.2.isAbstract with
  | some entry => rfl
  | none => rfl

/-- Once the names are there, composing at once is composing the template and then the rest, up to
the model that a fault in the template names. -/
theorem compose_append (outline : Declaration) {names : Option ModelNames}
    (hnames : (declaration.concrete ancestor []).resolveNames = .ok names) :
    (declaration.concrete ancestor (first ++ second)).compose =
      (outline.template ancestor first).compose.mapError (.inModel declaration.name) >>=
        fun middle => (declaration.concrete middle second).compose := by
  -- Neither the ancestor nor the overrides have a part in the names.
  have hwhole : (declaration.concrete ancestor (first ++ second)).resolveNames = .ok names := hnames
  have hrest : ∀ middle, (declaration.concrete middle second).resolveNames = .ok names :=
    fun _ => hnames
  rw [compose_concrete, hwhole, compose_template, mapError_bind, foldlM_applyOverride_inModel]
  change (first ++ second).foldlM (applyOverride declaration.name) ancestor.fields >>= _ = _
  rw [List.foldlM_append, bind_assoc, bind_assoc]
  congr 1
  funext fields
  change _ = (declaration.concrete (outline.blueprint none fields) second).compose
  rw [compose_concrete, hrest]
  rfl

/-- A template plus the rest is the same as one declaration.  Whatever the ancestor, and wherever the
overrides are cut, the declaration composes to a blueprint exactly when the template does to one over
which the rest composes to that same blueprint.  When the declaration has its names, the faults agree
as well: at the same field and for the same reason, in the model that declares it. -/
theorem compose_in_stages (declaration outline : Declaration) (ancestor : Blueprint)
    (first second : List (String × FieldDeclaration)) :
    (∀ blueprint, (declaration.concrete ancestor (first ++ second)).compose = .ok blueprint ↔
      ∃ middle, (outline.template ancestor first).compose = .ok middle ∧
        (declaration.concrete middle second).compose = .ok blueprint) ∧
      ∀ names, (declaration.concrete ancestor []).resolveNames = .ok names →
        (declaration.concrete ancestor (first ++ second)).compose =
          (outline.template ancestor first).compose.mapError (.inModel declaration.name) >>=
            fun middle => (declaration.concrete middle second).compose := by
  refine ⟨fun blueprint => ?_, fun names hnames => compose_append outline hnames⟩
  cases hnames : (declaration.concrete ancestor []).resolveNames with
  | ok names =>
      rw [compose_append outline hnames, bind_eq_ok]
      simp only [mapError_eq_ok]
  | error fault =>
      -- Without its names the declaration composes neither at once nor in stages.
      have hfails : ∀ middle overrides,
          (declaration.concrete middle overrides).compose = .error fault := by
        intro middle overrides
        have hmissing : (declaration.concrete middle overrides).resolveNames = .error fault := hnames
        rw [compose_concrete, hmissing]
        rfl
      simp only [hfails, reduceCtorEq, and_false, exists_false]

/-- A report that is declared with the fields of an article and its own, the body given twice. -/
theorem compose_in_stages_report :
    (({ name := "Report", tableName := some "reports", relatedName := some "reports" } :
        Declaration).concrete .base []).resolveNames = .ok Blueprint.report.names ∧
      (({ name := "Report", tableName := some "reports", relatedName := some "reports" } :
        Declaration).concrete .base
          ([("title", .typed (.primitive .text)), ("body", .named "abstract")] ++
            [("body", .named "list"), ("pages", .typed (.primitive .integer))])).compose =
        .ok Blueprint.report := by
  refine ⟨rfl, ?_⟩
  rw [(compose_in_stages _ { name := "Article" } .base _ _).2 _ rfl]
  rfl

end Declaration

end RecordStore
