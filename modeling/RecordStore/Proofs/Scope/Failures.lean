import RecordStore.Scope.Lookup

/-!
# What actions fail for

Two errors tell something of a scope that a maintainer may want to rely on: that a link leads to a record
that goes away, and that there are several records where one was expected.  All other errors are plain
(`Error.Plain`).  Nothing in a flush fails but plainly, except for the links that are filled
(`ScopeM.failsWithin_flush`), and looking up all records of a value does not fail because there are several
(`ScopeM.unambiguous_select`).
-/

namespace RecordStore

/-- An error says nothing of links that lead to records that go away, nor of rows that are too many. -/
def Error.Plain : Error → Prop
  | .invalidValue (.deletedTarget _) => False
  | .multipleResults _ => False
  | _ => True

variable {α β : Type}

/-- A computation fails only with plain errors. -/
def FailsPlainly (x : Except Error α) : Prop :=
  ∀ error, x = .error error → error.Plain

theorem failsPlainly_ok (a : α) : FailsPlainly (.ok a) := nofun

theorem failsPlainly_error {error : Error} (h : error.Plain) :
    FailsPlainly (.error error : Except Error α) := by
  rintro _ ⟨⟩
  exact h

theorem failsPlainly_ofData (x : Except DataFault α) : FailsPlainly (Error.ofData x) := by
  cases x with
  | error fault => exact failsPlainly_error trivial
  | ok a => exact failsPlainly_ok a

theorem FailsPlainly.bind {x : Except Error α} {f : α → Except Error β} (h : FailsPlainly x)
    (hf : ∀ a, FailsPlainly (f a)) : FailsPlainly (x >>= f) := by
  cases x with
  | error error =>
      rintro _ ⟨⟩
      exact h error rfl
  | ok a => exact hf a

theorem failsPlainly_ite {p : Prop} [Decidable p] {a b : Except Error α} (ha : FailsPlainly a)
    (hb : FailsPlainly b) : FailsPlainly (if p then a else b) := by
  by_cases hp : p
  · rw [if_pos hp]
    exact ha
  · rw [if_neg hp]
    exact hb

theorem failsPlainly_foldlM {f : β → α → Except Error β} (hf : ∀ b a, FailsPlainly (f b a)) (xs : List α)
    (start : β) : FailsPlainly (xs.foldlM f start) := by
  induction xs generalizing start with
  | nil => exact failsPlainly_ok start
  | cons x rest ih => exact (hf start x).bind ih

theorem failsPlainly_mapM {f : α → Except Error β} (hf : ∀ a, FailsPlainly (f a)) (xs : List α) :
    FailsPlainly (xs.mapM f) := by
  induction xs with
  | nil => exact failsPlainly_ok []
  | cons x rest ih =>
      rw [List.mapM_cons]
      exact (hf x).bind fun y => ih.bind fun ys => failsPlainly_ok (y :: ys)

/-! ## Columns and records -/

theorem Column.failsPlainly_blob (value : Value) : FailsPlainly (Column.blob value) :=
  (failsPlainly_ofData _).bind fun _ => failsPlainly_ok _

theorem Column.failsPlainly_bind (column : Column) (table : String) (value : Value) :
    FailsPlainly (column.bind table value) := by
  unfold bind bindScalar
  split
  · exact failsPlainly_ite (failsPlainly_blob value) (failsPlainly_error trivial)
  · refine failsPlainly_ite (failsPlainly_ite (failsPlainly_ok _) (failsPlainly_error trivial))
      (failsPlainly_ite (failsPlainly_blob value) ?_)
    split
    · exact failsPlainly_error trivial
    · split
      · exact failsPlainly_error trivial
      · exact failsPlainly_ok _

theorem Column.failsPlainly_load (column : Column) (stored : Value) : FailsPlainly (column.load stored) := by
  unfold load
  split
  · exact failsPlainly_ite (failsPlainly_ofData _) (failsPlainly_ok _)
  · exact failsPlainly_ok _

theorem Record.failsPlainly_get (record : Record) (attr : String) : FailsPlainly (record.get attr) := by
  unfold get
  split
  · exact failsPlainly_ok _
  · exact failsPlainly_error trivial

theorem Record.failsPlainly_requireId (record : Record) : FailsPlainly record.requireId := by
  unfold requireId
  split
  · exact failsPlainly_ok _
  · exact failsPlainly_error trivial

theorem failsPlainly_rowIdOf (id : Int64) : FailsPlainly (rowIdOf id) :=
  failsPlainly_ite (failsPlainly_error trivial) (failsPlainly_ok _)

/-! ## Storages -/

namespace Storage

theorem failsPlainly_read (storage : Storage) : FailsPlainly storage.read :=
  failsPlainly_ite (failsPlainly_ok _) (failsPlainly_error trivial)

theorem failsPlainly_row? (storage : Storage) (table : String) (number : UInt64) :
    FailsPlainly (storage.row? table number) :=
  storage.failsPlainly_read.bind fun _ => failsPlainly_ok _

end Storage

namespace Scope

variable (env : Environment) (scope : Scope)

theorem failsPlainly_visibleRow (table : String) (number : UInt64) :
    FailsPlainly (scope.visibleRow env table number) := by
  unfold visibleRow
  split
  · exact failsPlainly_ok _
  · exact env.storage.failsPlainly_row? table number

theorem failsPlainly_visibleRows (table : String) : FailsPlainly (scope.visibleRows env table) := by
  refine FailsPlainly.bind (env.storage.failsPlainly_read.bind fun _ => failsPlainly_ok _) ?_
  intro items
  refine FailsPlainly.bind (failsPlainly_foldlM ?_ _ _) fun rows => failsPlainly_ok _
  intro rows item
  exact (failsPlainly_ofData item).bind fun _ => failsPlainly_ok _

/-! ## Constraints -/

theorem failsPlainly_uniqueBucket (value : Value) : FailsPlainly (uniqueBucket value) := by
  unfold uniqueBucket
  split
  all_goals first | exact failsPlainly_ofData _ | exact failsPlainly_ok _

theorem failsPlainly_indexFor (images : List RowImage) (indexes : Indexes) (table column : String) :
    FailsPlainly (scope.indexFor env images indexes table column) := by
  unfold indexFor
  split
  · exact failsPlainly_ok _
  · refine FailsPlainly.bind (FailsPlainly.bind ?_ fun values => failsPlainly_foldlM ?_ _ _)
      fun index => failsPlainly_ok _
    · refine (failsPlainly_visibleRows env scope table).bind fun rows => failsPlainly_foldlM ?_ _ _
      intro values row
      exact (failsPlainly_ofData _).bind fun _ => failsPlainly_ok _
    · intro index entry
      exact failsPlainly_ite (failsPlainly_ok _)
        ((failsPlainly_uniqueBucket _).bind fun _ => failsPlainly_ok _)

theorem failsPlainly_checkUnique (images : List RowImage) (image : RowImage) (column : Column)
    (value : Value) (indexes : Indexes) :
    FailsPlainly (scope.checkUnique env images image column value indexes) := by
  unfold checkUnique
  refine failsPlainly_ite (failsPlainly_ok _) ?_
  refine (failsPlainly_indexFor env scope images indexes _ _).bind ?_
  rintro ⟨index, indexes⟩
  refine (failsPlainly_uniqueBucket value).bind ?_
  intro bucket
  exact failsPlainly_ite (FailsPlainly.bind (failsPlainly_error trivial) fun _ => failsPlainly_ok _)
    (failsPlainly_ok _)

theorem failsPlainly_checkForeignKey (images : List RowImage) (image : RowImage) (column : Column)
    (value : Value) : FailsPlainly (scope.checkForeignKey env images image column value) := by
  unfold checkForeignKey
  cases column.foreignKey with
  | none => exact failsPlainly_ok _
  | some key =>
      have hanswer : ∀ found : Bool, FailsPlainly
          (if (!found) = true then throw (column.reject image.model.tableName .foreignKey)
            else pure () : Except Error Unit) := fun _ =>
        failsPlainly_ite (failsPlainly_error trivial) (failsPlainly_ok _)
      simp only []
      split
      · refine failsPlainly_ite (hanswer false) (FailsPlainly.bind ?_ hanswer)
        unfold rowWillBe
        split
        · exact failsPlainly_ok _
        · exact (failsPlainly_visibleRow env scope _ _).bind fun _ => failsPlainly_ok _
      · exact hanswer false

theorem failsPlainly_checkConstraints (images : List RowImage) :
    FailsPlainly (scope.checkConstraints env images) := by
  refine FailsPlainly.bind (failsPlainly_foldlM ?_ _ _) fun _ => failsPlainly_ok _
  intro indexes image
  unfold checkImage
  split
  · exact failsPlainly_ok _
  · refine failsPlainly_foldlM ?_ _ _
    intro indexes column
    refine failsPlainly_ite (failsPlainly_ok _) ?_
    refine (failsPlainly_checkUnique env scope _ _ _ _ _).bind fun _ => ?_
    exact (failsPlainly_checkForeignKey env scope _ _ _ _).bind fun _ => failsPlainly_ok _

end Scope

/-! ## Actions -/

namespace ScopeM

/-- An action fails only with some errors. -/
def FailsWithin (allowed : Error → Prop) (action : ScopeM α) : Prop :=
  ∀ start error after, action.run start = .error error after → allowed error

/-- An action fails only with plain errors. -/
abbrev FailsPlainly (action : ScopeM α) : Prop :=
  FailsWithin Error.Plain action

variable {allowed allowed' : Error → Prop}

theorem FailsWithin.mono {action : ScopeM α} (h : FailsWithin allowed action)
    (hallowed : ∀ error, allowed error → allowed' error) : FailsWithin allowed' action :=
  fun start error after hrun => hallowed error (h start error after hrun)

theorem failsWithin_pure (a : α) : FailsWithin allowed (pure a) := nofun

theorem failsWithin_throw {error : Error} (h : allowed error) :
    FailsWithin allowed (throw error : ScopeM α) := by
  intro start _ after hrun
  cases hrun
  exact h

theorem failsWithin_modify (f : Scope → Scope) : FailsWithin allowed (modify f : ScopeM PUnit) := nofun

theorem failsPlainly_lift {x : Except Error α} (h : RecordStore.FailsPlainly x) :
    FailsPlainly (lift x) := by
  cases x with
  | error error => exact failsWithin_throw (h error rfl)
  | ok a => exact failsWithin_pure a

theorem FailsWithin.bind {action : ScopeM α} {next : α → ScopeM β} (h : FailsWithin allowed action)
    (hnext : ∀ a, FailsWithin allowed (next a)) : FailsWithin allowed (action >>= next) := by
  intro start error after hrun
  rw [EStateM.run_bind] at hrun
  cases haction : action.run start with
  | error found middle =>
      rw [haction] at hrun
      cases hrun
      exact h start error after haction
  | ok a middle =>
      rw [haction] at hrun
      exact hnext a middle error after hrun

theorem failsWithin_get_bind {next : Scope → ScopeM α}
    (h : ∀ scope, FailsWithin allowed (next scope)) : FailsWithin allowed (get >>= next) :=
  fun start => h start start

theorem failsWithin_set_bind {scope : Scope} {next : PUnit → ScopeM α}
    (h : FailsWithin allowed (next ⟨⟩)) : FailsWithin allowed (set scope >>= next) :=
  fun _ => h scope

theorem failsPlainly_consult {x : Except Error α} (h : RecordStore.FailsPlainly x) :
    FailsPlainly (consult x) :=
  (failsWithin_modify _).bind fun _ => failsPlainly_lift h

theorem failsWithin_ite {p : Prop} [Decidable p] {a b : ScopeM α} (ha : FailsWithin allowed a)
    (hb : FailsWithin allowed b) : FailsWithin allowed (if p then a else b) := by
  by_cases hp : p
  · rw [if_pos hp]
    exact ha
  · rw [if_neg hp]
    exact hb

theorem failsPlainly_entry (handle : Handle) : FailsPlainly (Scope.entry handle) := by
  refine failsWithin_get_bind fun scope => ?_
  cases scope.entries[handle]? with
  | none => exact failsWithin_throw trivial
  | some entry => exact failsWithin_pure entry

theorem failsPlainly_record (handle : Handle) : FailsPlainly (Scope.record handle) :=
  (failsPlainly_entry handle).bind fun _ => failsWithin_pure _

theorem failsWithin_forM {body : α → ScopeM PUnit} (h : ∀ a, FailsWithin allowed (body a))
    (xs : List α) : FailsWithin allowed (xs.forM body) := by
  induction xs with
  | nil => exact failsWithin_pure _
  | cons x rest ih => exact (h x).bind fun _ => ih

/-! ## Keys and references -/

theorem failsPlainly_assignId (env : Environment) (handle : Handle) :
    FailsPlainly (Scope.assignId env handle) := by
  refine (failsPlainly_entry handle).bind fun entry => ?_
  refine failsWithin_ite ?_ (failsWithin_pure _)
  refine FailsWithin.bind ?required fun _ => ?_
  case required =>
    refine failsWithin_get_bind fun scope => ?_
    refine failsWithin_ite (failsWithin_pure _) ?_
    refine (failsPlainly_consult (env.storage.failsPlainly_read.bind fun _ => failsPlainly_ok _)).bind ?_
    intro schema
    cases schema with
    | none => exact failsWithin_throw trivial
    | some schema => exact failsWithin_modify _
  cases entry.record.model.sequence? with
  | none => exact failsWithin_throw trivial
  | some sequence =>
      refine FailsWithin.bind ?numbered fun id => ?_
      case numbered =>
        refine failsWithin_get_bind fun scope => ?_
        refine (failsPlainly_lift ?_).bind fun current => ?_
        · unfold Scope.sequenceValue
          split
          · exact failsPlainly_ok _
          · exact env.storage.failsPlainly_read.bind fun _ => failsPlainly_ok _
        · refine (failsWithin_modify _).bind fun _ => ?_
          exact failsWithin_ite (failsWithin_throw trivial) (failsWithin_pure _)
      exact (failsWithin_modify _).bind fun _ => failsWithin_modify _

theorem failsPlainly_assignIds (env : Environment) : FailsPlainly (Scope.assignIds env) :=
  failsWithin_get_bind fun _ => failsWithin_forM (failsPlainly_assignId env) _

/-- Filling links fails only for a target that goes away. -/
theorem failsWithin_resolveLinks :
    FailsWithin (fun error => ∃ column, error = .invalidValue (.deletedTarget column))
      Scope.resolveLinks := by
  refine failsWithin_get_bind fun scope => failsWithin_set_bind ?_
  refine failsWithin_forM (fun link => ?_) _
  refine failsWithin_get_bind fun scope => ?_
  cases scope.linkedId? link.2 with
  | none => exact failsWithin_throw ⟨_, rfl⟩
  | some id => exact failsWithin_modify _

/-! ## Images -/

theorem failsPlainly_lookUpRow (env : Environment) (table : String) (number : UInt64) :
    FailsPlainly (Scope.lookUpRow env table number) := by
  refine failsWithin_get_bind fun scope => ?_
  exact failsWithin_ite (failsPlainly_lift (Scope.failsPlainly_visibleRow env scope table number))
    (failsPlainly_consult (Scope.failsPlainly_visibleRow env scope table number))

theorem failsPlainly_now : FailsPlainly Scope.now :=
  failsWithin_get_bind fun _ => failsWithin_set_bind (failsWithin_pure _)

theorem failsPlainly_insertColumn (handle : Handle) (record : Record) (id : Int64) (column : Column) :
    FailsPlainly (Scope.insertColumn handle record id column) := by
  have hbind := fun value => failsPlainly_lift (column.failsPlainly_bind record.model.tableName value)
  unfold Scope.insertColumn
  refine failsWithin_ite (failsWithin_pure _) (failsWithin_ite ?changed ?unchanged)
  case changed =>
    refine (failsPlainly_lift (record.failsPlainly_get _)).bind fun value => ?_
    exact (hbind value).bind fun _ => failsWithin_pure _
  case unchanged =>
    cases column.default with
    | some default =>
        refine FailsWithin.bind ?_ fun value => (hbind value).bind fun bound => ?_
        · exact failsWithin_get_bind fun _ => failsWithin_set_bind (failsWithin_pure _)
        · exact (failsWithin_modify _).bind fun _ => failsWithin_pure _
    | none =>
        exact failsWithin_ite (failsWithin_pure _) ((hbind .null).bind fun _ => failsWithin_pure _)

theorem failsPlainly_insertColumns (handle : Handle) (record : Record) (id : Int64)
    (columns : List Column) : FailsPlainly (Scope.insertColumns handle record id columns) := by
  induction columns with
  | nil => exact failsWithin_pure []
  | cons column rest ih =>
      refine (failsPlainly_insertColumn handle record id column).bind fun first => ?_
      exact ih.bind fun others => failsWithin_pure (first :: others)

theorem failsPlainly_insertImage (handle : Handle) : FailsPlainly (Scope.insertImage handle) := by
  refine (failsPlainly_record handle).bind fun record => ?_
  refine (failsPlainly_lift record.failsPlainly_requireId).bind fun id => ?_
  refine (failsPlainly_insertColumns handle record id _).bind fun columns => ?_
  refine (failsPlainly_lift (failsPlainly_ofData _)).bind fun data => ?_
  refine failsPlainly_now.bind fun time => ?_
  exact (failsPlainly_lift (failsPlainly_rowIdOf id)).bind fun number => failsWithin_pure _

theorem failsPlainly_updateImage (env : Environment) (handle : Handle) :
    FailsPlainly (Scope.updateImage env handle) := by
  refine (failsPlainly_record handle).bind fun record => ?_
  refine (failsPlainly_lift record.failsPlainly_requireId).bind fun id => ?_
  refine (failsPlainly_lift (failsPlainly_rowIdOf id)).bind fun number => ?_
  refine (failsPlainly_lookUpRow env _ number).bind fun existing => ?_
  refine (failsPlainly_lift ?_).bind fun stored => ?_
  · cases existing with
    | none => exact failsPlainly_ok _
    | some row => exact failsPlainly_ofData _
  · refine (failsPlainly_lift (failsPlainly_mapM (fun column => ?_) _)).bind fun columns => ?_
    · refine RecordStore.failsPlainly_ite (failsPlainly_ok _) (RecordStore.failsPlainly_ite ?_
        (failsPlainly_ok _))
      refine (record.failsPlainly_get _).bind fun value => ?_
      exact (column.failsPlainly_bind _ value).bind fun _ => failsPlainly_ok _
    · refine (failsPlainly_lift (failsPlainly_ofData _)).bind fun data => ?_
      exact failsPlainly_now.bind fun time => failsWithin_pure _

theorem failsPlainly_deleteImage (handle : Handle) : FailsPlainly (Scope.deleteImage handle) := by
  refine (failsPlainly_record handle).bind fun record => ?_
  refine (failsPlainly_lift record.failsPlainly_requireId).bind fun id => ?_
  exact (failsPlainly_lift (failsPlainly_rowIdOf id)).bind fun number => failsWithin_pure _

theorem failsPlainly_image? (env : Environment) (handle : Handle) :
    FailsPlainly (Scope.image? env handle) := by
  refine (failsPlainly_entry handle).bind fun entry => ?_
  cases entry.state with
  | pending => exact (failsPlainly_insertImage handle).bind fun _ => failsWithin_pure _
  | persistent =>
      exact failsWithin_ite ((failsPlainly_updateImage env handle).bind fun _ => failsWithin_pure _)
        (failsWithin_pure _)
  | deleted => exact (failsPlainly_deleteImage handle).bind fun _ => failsWithin_pure _
  | removed => exact failsWithin_pure none

theorem failsPlainly_imagesOf (env : Environment) (handles : List Handle) :
    FailsPlainly (Scope.imagesOf env handles) := by
  induction handles with
  | nil => exact failsWithin_pure []
  | cons handle rest ih =>
      refine (failsPlainly_image? env handle).bind fun image => ?_
      cases image with
      | none => exact ih
      | some image => exact ih.bind fun others => failsWithin_pure (image :: others)

theorem failsPlainly_rowImages (env : Environment) : FailsPlainly (Scope.rowImages env) :=
  failsWithin_get_bind fun _ => failsPlainly_imagesOf env _

/-- What a flush does after the links are filled. -/
theorem failsPlainly_staging (env : Environment) :
    FailsPlainly (do
      let images ← Scope.rowImages env
      ScopeM.lift ((← get).checkConstraints env images)
      modify (Scope.settle images)) := by
  refine (failsPlainly_rowImages env).bind fun images => failsWithin_get_bind fun scope => ?_
  exact (failsPlainly_lift (Scope.failsPlainly_checkConstraints env scope images)).bind fun _ =>
    failsWithin_modify _

/-- An error of a flush that is not plain is that of a link. -/
theorem failsWithin_flush (env : Environment) :
    FailsWithin (fun error => error.Plain ∨ ∃ column, error = .invalidValue (.deletedTarget column))
      (Scope.flush env) :=
  ((failsPlainly_assignIds env).mono fun _ => Or.inl).bind fun _ =>
    (failsWithin_resolveLinks.mono fun _ => Or.inr).bind fun _ =>
      (failsPlainly_staging env).mono fun _ => Or.inl

/-! ## Look-ups -/

theorem failsPlainly_materialize (env : Environment) (model : Model) (id : Int64) (row : StoredRow) :
    FailsPlainly (Scope.materialize env model id row) := by
  refine (failsPlainly_lift (failsPlainly_ofData _)).bind fun stored => ?_
  refine (failsPlainly_lift (failsPlainly_foldlM (fun loaded entry => ?_) _ _)).bind fun loaded => ?_
  · unfold Scope.loadColumn
    split
    · exact (Column.failsPlainly_load _ _).bind fun _ => failsPlainly_ok _
    · exact failsPlainly_ok _
  · refine FailsWithin.bind (failsWithin_get_bind fun _ => failsWithin_set_bind (failsWithin_pure _))
      fun handle => ?_
    exact (failsWithin_modify _).bind fun _ => failsWithin_pure handle

theorem failsPlainly_selectRows (env : Environment) (model : Model) (filter : Option (Column × Value))
    (rows : List (UInt64 × StoredRow)) : FailsPlainly (Scope.selectRows env model filter rows) := by
  induction rows with
  | nil => exact failsWithin_pure []
  | cons row rest ih =>
      refine FailsWithin.bind ?selected fun found => ?_
      case selected =>
        refine (failsPlainly_lift ?passed).bind fun passed => ?_
        case passed =>
          cases filter with
          | none => exact failsPlainly_ok true
          | some filter =>
              refine (failsPlainly_ofData _).bind fun stored => ?_
              exact (filter.1.failsPlainly_load _).bind fun _ => failsPlainly_ok _
        refine failsWithin_ite (failsWithin_pure none) ?_
        have hkey : RecordStore.FailsPlainly (Scope.keyOf row.1) :=
          RecordStore.failsPlainly_ite (failsPlainly_error trivial) (failsPlainly_ok _)
        refine (failsPlainly_lift hkey).bind fun id => failsWithin_get_bind fun scope => ?_
        cases scope.identity.find? (model.name, id) with
        | some handle => exact failsWithin_pure _
        | none => exact (failsPlainly_materialize env model id row.2).bind fun _ => failsWithin_pure _
      cases found with
      | none => exact ih
      | some handle => exact ih.bind fun others => failsWithin_pure (handle :: others)

/-- Looking up all records of a value does not fail because there are several. -/
theorem unambiguous_select (env : Environment) (name : String) (filter : Option (String × Value)) :
    FailsWithin (fun error => ∀ model, error ≠ .multipleResults model) (Scope.select env name filter) := by
  have hplain : ∀ error : Error, error.Plain → ∀ model, error ≠ .multipleResults model := by
    rintro _ h model rfl
    exact h
  refine FailsWithin.bind ((failsWithin_flush env).mono ?_) fun _ => FailsWithin.mono ?_ hplain
  · rintro error (herror | ⟨column, rfl⟩)
    · exact hplain error herror
    · nofun
  refine (failsPlainly_lift ?registered).bind fun model => ?_
  case registered =>
    unfold Registry.model
    split
    · exact failsPlainly_ok _
    · exact failsPlainly_error trivial
  refine (failsPlainly_lift ?resolved).bind fun resolved => failsWithin_get_bind fun scope => ?_
  case resolved =>
    unfold Scope.resolveFilter
    split
    · exact failsPlainly_ok _
    · split
      · exact failsPlainly_ok _
      · exact failsPlainly_error trivial
  refine (failsPlainly_consult (Scope.failsPlainly_visibleRows env scope _)).bind fun rows => ?_
  exact failsPlainly_selectRows env model resolved rows.toList

end ScopeM

end RecordStore
