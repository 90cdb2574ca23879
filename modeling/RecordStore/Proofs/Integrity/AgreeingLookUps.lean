import RecordStore.Proofs.Integrity.ForeignKeys
import RecordStore.Proofs.Integrity.IdentityMap
import RecordStore.Proofs.Integrity.ShownRows
import RecordStore.Proofs.Scope.Imaging

/-!
# Look-ups agree with each other

When all records of a model are looked up, the scope is flushed and lists its rows: each visible row
once, by increasing keys, with the handle of its record (`Scope.Lists`).  The scope is at rest afterwards,
so whatever is looked up then finds the same rows.  A look-up by value returns the part of the list whose
rows hold the value, unless the column cannot be read in a row of the list (`Scope.Lists.findAll`), and a
look-up by key finds exactly the keys of the list (`Scope.Lists.findsAt_iff`).  The theorem `look_ups_agree`
says it of any course of events.  That a column cannot be read is due to a time of day in a value that was
written into it (`marks_are_listed_but_not_looked_up`).
-/

namespace RecordStore

/-- A row that is listed: its key, what it holds, and the handle of its record. -/
structure ListedRow where
  id : Int64
  row : StoredRow
  handle : Handle

namespace ListedRow

/-- The row as the storage has it, by its number. -/
def stored (item : ListedRow) : UInt64 × StoredRow :=
  (item.id.toUInt64, item.row)

/-- The part of a list whose rows hold a value in a column. -/
def holding (column : Column) (value : Value) (listing : List ListedRow) : List ListedRow :=
  listing.filter fun item => item.row.isSelected (some (column, value))

theorem holding_stored (column : Column) (value : Value) (listing : List ListedRow) :
    (listing.map stored).filter (·.2.isSelected (some (column, value))) =
      (holding column value listing).map stored := by
  rw [List.filter_map]
  rfl

/-- A column can be read in each row of a list. -/
def Read (column : Column) (listing : List ListedRow) : Prop :=
  ∀ item ∈ listing, ∃ value, item.row.read column = .ok value

end ListedRow

/-- What an attribute stands for in look-ups: a column by its name, or the column of a relationship. -/
def Model.AttributeOf (model : Model) (attr : String) (column : Column) : Prop :=
  column ∈ model.columns ∧ (attr = column.name ∨ ∃ relationship ∈ model.relationships,
    relationship.name = attr ∧ relationship.column = column.name)

theorem Model.AttributeOf.resolveFilter_eq {registry : Registry} (hregistry : registry.Consistent)
    {model : Model} (hmodel : model ∈ registry.models) {attr : String} {column : Column}
    (hattr : model.AttributeOf attr column) (value : Value) :
    Scope.resolveFilter model (some (attr, value)) = .ok (some (column, value)) := by
  obtain ⟨_, -, hcompiled⟩ := hregistry.mem_compiled hmodel
  simp [Scope.resolveFilter, hcompiled.attributeColumn?_eq hattr.1 hattr.2]

namespace Scope

variable {env : Environment} {terms : Terms} {deleted : List (String × UInt64)}
  {scope after : Scope} {model : Model} {handle : Handle} {name : String} {id : Int64}
  {listing : List ListedRow}

/-- The rows of a model that a scope sees, each once and by increasing keys, with handles of records that
have the keys. -/
structure Lists (env : Environment) (scope : Scope) (model : Model) (listing : List ListedRow) :
    Prop where
  rows : ∃ rows, scope.visibleRows env model.tableName = .ok rows ∧
    rows.toList = listing.map ListedRow.stored
  increasing : listing.Pairwise fun first second => first.id.toInt < second.id.toInt
  keyed : ∀ item ∈ listing, 0 ≤ item.id.toInt ∧ scope.StandsFor item.handle model.name item.id

/-- The number of a row leads back to its key. -/
theorem keyOf_toUInt64 (h : 0 ≤ id.toInt) : keyOf id.toUInt64 = .ok id := by
  have hnumber := toNat_toUInt64 h
  have hsmall : id.toInt < 9223372036854775808 := id.toInt_lt
  have hkey : ¬9223372036854775808 ≤ id.toUInt64.toNat := by omega
  unfold keyOf
  simp [hkey]

/-- Rows whose keys stand for handles can be listed. -/
theorem Represents.exists_listing (hrooted : scope.Rooted env) {rows : SortedMap UInt64 StoredRow}
    (hrows : scope.visibleRows env model.tableName = .ok rows) {handles : List Handle}
    (h : scope.Represents model rows.toList handles) :
    ∃ listing, handles = listing.map ListedRow.handle ∧ scope.Lists env model listing := by
  -- Row by row a key is taken out of the number.
  have hitems : ∀ {rows : List (UInt64 × StoredRow)} {handles : List Handle},
      scope.Represents model rows handles → ∃ listing : List ListedRow,
        rows = listing.map ListedRow.stored ∧ handles = listing.map ListedRow.handle ∧
        ∀ item ∈ listing, 0 ≤ item.id.toInt ∧ scope.StandsFor item.handle model.name item.id := by
    intro rows handles hrepresents
    induction hrepresents with
    | nil => exact ⟨[], rfl, rfl, by simp⟩
    | @cons row handle _ _ hfirst _ ih =>
        obtain ⟨listing, hrest, hhandles, hkeyed⟩ := ih
        obtain ⟨id, hid, hfind⟩ := hfirst
        obtain ⟨hpositive, hnumber⟩ := keyOf_eq_ok hid
        refine ⟨{ id, row := row.2, handle } :: listing, ?_, by simp [hhandles], ?_⟩
        · simp [ListedRow.stored, hnumber, hrest]
        · intro item hitem
          rcases List.mem_cons.1 hitem with rfl | hlater
          · exact ⟨hpositive, hrooted.standsFor hfind⟩
          · exact hkeyed item hlater
  obtain ⟨listing, hstored, hhandles, hkeyed⟩ := hitems h
  refine ⟨listing, hhandles, ⟨rows, hrows, hstored⟩, ?_, hkeyed⟩
  -- The rows of a map stand by increasing numbers, and a number is that of its key.
  have hsorted : (listing.map ListedRow.stored).Pairwise fun first second =>
      first.1.toNat < second.1.toNat := by
    rw [← hstored]
    exact rows.sorted.imp fun h => by simpa [KeyOrder.lt] using h
  refine (List.pairwise_map.1 hsorted).imp_of_mem ?_
  intro first second hfirst hsecond hlt
  have hnumber := toNat_toUInt64 (hkeyed first hfirst).1
  have hnumber' := toNat_toUInt64 (hkeyed second hsecond).1
  simp only [ListedRow.stored] at hlt
  omega

/-- A look-up by value that succeeds has read the column in each row. -/
theorem Selected.read {column : Column} {value : Value} {flushed : Scope}
    {rows : SortedMap UInt64 StoredRow} {handles : List Handle}
    (h : Selected env scope model (some (column, value)) flushed rows handles after)
    (hrows : rows.toList = listing.map ListedRow.stored) : ListedRow.Read column listing := by
  intro item hitem
  refine StoredRow.answers_some.1 (h.answers item.stored ?_)
  rw [hrows]
  exact List.mem_map_of_mem hitem

/-- A listed row whose key stands for a record, or which can be loaded, stops a look-up only by its column. -/
theorem Stops.not_read {column : Column} {value : Value} {row : UInt64 × StoredRow}
    (h : scope.Stops model (some (column, value)) row) (hrow : row ∈ listing.map ListedRow.stored)
    (hid : keyOf row.1 = .ok id)
    (hstands : (∃ handle, scope.identity.find? (model.name, id) = some handle) ∨ model.CanLoad row.2) :
    ¬ListedRow.Read column listing := by
  intro hread
  cases h with
  | unread hunread =>
      obtain ⟨item, hitem, rfl⟩ := List.mem_map.1 hrow
      exact hunread (StoredRow.answers_some.2 (hread item hitem))
  | keyless _ hnone => exact hnone id hid
  | unloadable key _ hkey hnone hfails =>
      obtain rfl := Except.ok.inj (hid.symm.trans hkey)
      rcases hstands with ⟨_, hfind⟩ | hcan
      · cases hnone.symm.trans hfind
      · exact hfails hcan

namespace Lists

variable (hregistry : env.registry.Consistent)
  (hcount : ∀ model ∈ env.registry.models, model.columns.length < 4294967296)
  (hgrounded : terms.grounded) (h : scope.Intact env terms deleted)
  (hmodel : model ∈ env.registry.models) (hlists : scope.Lists env model listing)

include hlists

/-- A row is visible exactly if it is listed. -/
theorem visibleRow_iff {row : StoredRow} (hpositive : 0 ≤ id.toInt) :
    scope.visibleRow env model.tableName id.toUInt64 = .ok (some row) ↔
      ∃ item ∈ listing, item.id = id ∧ item.row = row := by
  obtain ⟨rows, hrows, hstored⟩ := hlists.rows
  rw [find?_visibleRows hrows, Except.ok.injEq, SortedMap.find?_eq_some_iff, hstored]
  constructor
  · intro hmem
    obtain ⟨item, hitem, hsame⟩ := List.mem_map.1 hmem
    obtain ⟨hnumber, hrow⟩ := Prod.mk.inj hsame
    exact ⟨item, hitem, toUInt64_injective hnumber, hrow⟩
  · rintro ⟨item, hitem, rfl, rfl⟩
    exact List.mem_map_of_mem hitem

include hgrounded h

/-- The handles of rows that are listed are what their keys stand for. -/
theorem represents {part : List ListedRow} (hpart : ∀ item ∈ part, item ∈ listing) :
    scope.Represents model (part.map ListedRow.stored) (part.map ListedRow.handle) := by
  unfold Represents
  rw [List.forall₂_map_left_iff, List.forall₂_map_right_iff, List.forall₂_same]
  intro item hitem
  obtain ⟨hpositive, hstands⟩ := hlists.keyed item (hpart item hitem)
  exact ⟨item.id, keyOf_toUInt64 hpositive, (identity_iff h.rooted (h.keyed hgrounded)).2 hstands⟩

/-! ## By key -/

variable (hsettled : scope.Settled)

include hregistry hmodel hsettled

/-- The keys that are found are those of the list, each at the handle of the list. -/
theorem findsAt_iff : scope.FindsAt env model id handle ↔
    ∃ item ∈ listing, item.id = id ∧ item.handle = handle := by
  have hkeyed := h.keyed hgrounded
  have hidentified : ∀ item ∈ listing,
      scope.identity.find? (model.name, item.id) = some item.handle := fun item hitem =>
    (identity_iff h.rooted hkeyed).2 (hlists.keyed item hitem).2
  constructor
  · rintro (⟨_, entry, hfind, hentry, hlive⟩ | ⟨row, hnone, hpositive, hvisible⟩)
    · -- A record that is still there has its row, and that is listed.
      obtain ⟨_, hentry', hname, hid⟩ := h.rooted.standsFor hfind
      obtain rfl := Option.some.inj (hentry.symm.trans hentry')
      have hstanding := standing_of_entry hentry
      have hsame : entry.record.model = model :=
        hregistry.eq_of_name (h.rooted.registered _ _ hstanding) hmodel hname
      have hstate : entry.state = .persistent := by
        rcases hsettled handle entry hentry with ⟨hstate, -⟩ | hstate
        · exact hstate
        · simp [hstate, Lifecycle.isLive] at hlive
      obtain ⟨key, row, hkey, hrow⟩ := (hkeyed.records _ _ hstanding).present (Or.inl hstate)
      obtain rfl := Option.some.inj (hid.symm.trans hkey)
      have hpositive := ((hkeyed.records _ _ hstanding).identified id hid).1
      have hvisible : scope.visibleRow env model.tableName id.toUInt64 = .ok (some row) := by
        rw [← hsame]
        exact hrow
      obtain ⟨item, hitem, rfl, -⟩ := (hlists.visibleRow_iff (by omega)).1 hvisible
      exact ⟨item, hitem, rfl, Option.some.inj ((hidentified item hitem).symm.trans hfind)⟩
    · -- The key of a visible row stands for a record already.
      obtain ⟨item, hitem, rfl, -⟩ := (hlists.visibleRow_iff hpositive).1 hvisible
      cases hnone.symm.trans (hidentified item hitem)
  · rintro ⟨item, hitem, rfl, rfl⟩
    obtain ⟨hpositive, entry, hentry, hname, hid⟩ := hlists.keyed item hitem
    refine .held _ entry (hidentified item hitem) hentry ?_
    have hstanding := standing_of_entry hentry
    have hsame : entry.record.model = model :=
      hregistry.eq_of_name (h.rooted.registered _ _ hstanding) hmodel hname
    -- The record has its row, so it has not gone away.
    rcases hsettled item.handle entry hentry with ⟨hstate, -⟩ | hstate
    · simp [hstate, Lifecycle.isLive]
    · have hrow := (hlists.visibleRow_iff hpositive).2 ⟨item, hitem, rfl, rfl⟩
      rw [← hsame] at hrow
      exact absurd hrow ((hkeyed.records _ _ hstanding).absent (Or.inr hstate) item.id item.row hid)

/-! ## By value -/

omit hsettled

include hcount

/-- A look-up by value returns the part of the list whose rows hold the value, unless the column cannot be
read in a row of the list. -/
theorem findAll (hrest : scope.AtRest) {attr : String} {column : Column}
    (hattr : model.AttributeOf attr column) (value : Value) :
    (Scope.findAll env model.name attr value).Ends scope
      (fun handles _ => ListedRow.Read column listing ∧
        handles = (ListedRow.holding column value listing).map ListedRow.handle)
      (fun _ => ¬ListedRow.Read column listing) := by
  obtain ⟨rows, hrows, hstored⟩ := hlists.rows
  -- The flush changes nothing, so the rows are those of the list.
  obtain ⟨_, _, hflush, rfl⟩ := (flush_of_rest env hrest).run_eq
  have hpart : ∀ item ∈ ListedRow.holding column value listing, item ∈ listing := fun _ hitem =>
    (List.mem_filter.1 hitem).1
  refine (select_of_flush hregistry hcount hflush h.rows hmodel
    (hattr.resolveFilter_eq hregistry hmodel value) hrows).mono ?_ ?_
  · intro handles after hfound
    have hrepresents := hfound.represents
    rw [hstored, ListedRow.holding_stored] at hrepresents
    exact ⟨hfound.read hstored,
      ((hlists.represents hgrounded h hpart).loads hfound.loads).unique hrepresents⟩
  · -- The rows of a list have keys that stand for records, so a column stopped the look-up.
    rintro _ ⟨row, hrow, hstops⟩
    rw [hstored] at hrow
    obtain ⟨_, -, id, hid, hfind⟩ := exists_of_mem_forall₂
      (hlists.represents hgrounded h fun _ hitem => hitem) hrow
    exact hstops.not_read hrow hid (Or.inl ⟨_, hfind⟩)

end Lists

/-- Where all records can be looked up, so can those that hold a value, unless the column cannot be read. -/
theorem Selected.findAll (hregistry : env.registry.Consistent)
    (hcount : ∀ model ∈ env.registry.models, model.columns.length < 4294967296)
    (hmodel : model ∈ env.registry.models) {flushed : Scope} (hsound : flushed.SoundRows env deleted)
    {rows : SortedMap UInt64 StoredRow} (hrows : rows.toList = listing.map ListedRow.stored)
    {handles : List Handle} (hall : Selected env scope model none flushed rows handles after)
    {attr : String} {column : Column} (hattr : model.AttributeOf attr column) (value : Value) :
    (Scope.findAll env model.name attr value).Ends scope
      (fun others last => ListedRow.Read column listing ∧ last.Represents model
        ((ListedRow.holding column value listing).map ListedRow.stored) others)
      (fun _ => ¬ListedRow.Read column listing) := by
  have hrepresents : after.Represents model rows.toList handles := by
    simpa [StoredRow.isSelected] using hall.represents
  refine (select_of_flush hregistry hcount hall.flushes hsound hmodel
    (hattr.resolveFilter_eq hregistry hmodel value) hall.visible).mono ?_ ?_
  · intro others last hfound
    exact ⟨hfound.read hrows, by simpa [hrows, ListedRow.holding_stored] using hfound.represents⟩
  · -- Every row has a key, which stood for a record or was loaded, as all of them were found.
    rintro _ ⟨row, hrow, hstops⟩
    obtain ⟨_, -, id, hid, hfind⟩ := exists_of_mem_forall₂ hrepresents hrow
    refine hstops.not_read (hrows ▸ hrow) hid ?_
    rcases hall.loads_only id _ hfind with hheld | ⟨found, hvisible, hcan⟩
    · exact Or.inl ⟨_, hheld⟩
    · rw [(keyOf_eq_ok hid).2, find?_visibleRows hall.visible,
        SortedMap.find?_eq_some_iff.2 hrow] at hvisible
      cases hvisible
      exact Or.inr hcan

/-- The handles of a part of a list are those of records that have its keys. -/
theorem Represents.standsFor (hrooted : scope.Rooted env) {part : List ListedRow} {handles : List Handle}
    (h : scope.Represents model (part.map ListedRow.stored) handles) :
    List.Forall₂ (fun item handle => scope.StandsFor handle model.name item.id) part handles := by
  refine (List.forall₂_map_left_iff.1 h).imp ?_
  rintro item handle ⟨id, hid, hfind⟩
  obtain ⟨-, hnumber⟩ := keyOf_eq_ok hid
  obtain rfl : id = item.id := toUInt64_injective hnumber
  exact hrooted.standsFor hfind

end Scope

namespace Course.Intact

variable {registry : Registry} {terms : Terms} {course : Course}

/-- A look-up by value leaves the course intact. -/
theorem select (h : course.Intact registry terms) (hregistry : registry.Consistent)
    (hcount : ∀ model ∈ registry.models, model.columns.length < 4294967296) (name : String)
    (filter : Option (String × Value)) :
    ({ course with db := (course.db.run (Scope.select · name filter)).2 } : Course).Intact registry
      terms := by
  refine h.run hregistry hcount ?_
  intro scope hscope
  exact (Scope.lookable_reaches (h.opened scope hscope).rooted).keeps_select
    (h.registry_consistent hregistry) name filter _ Relation.ReflTransGen.refl

/-- When all records of a model can be looked up, they are listed in a scope that is at rest. -/
theorem exists_listing (h : course.Intact registry terms) (hregistry : registry.Consistent)
    (hcount : ∀ model ∈ registry.models, model.columns.length < 4294967296) {scope after : Scope}
    (hscope : course.db.scope = some scope) {name : String} {handles : List Handle}
    (hrun : (Scope.all course.db.environment name).run { scope with supply := course.db.supply } =
      .ok handles after) :
    ∃ model ∈ registry.models, model.name = name ∧ ∃ flushed rows, ∃ listing : List ListedRow,
      Scope.Selected course.db.environment { scope with supply := course.db.supply } model none
        flushed rows handles after ∧
      flushed.Intact course.db.environment terms course.deleted ∧
      after.Intact course.db.environment terms course.deleted ∧ after.AtRest ∧
      rows.toList = listing.map ListedRow.stored ∧ handles = listing.map ListedRow.handle ∧
      after.Lists course.db.environment model listing := by
  -- The flush in the look-up is the flush of the scope.
  obtain ⟨model, hmodel, hname, resolved, hresolved, flushed, rows, hselected⟩ :=
    (Scope.select_selected (h.registry_consistent hregistry) (h.counted hcount)
      (fun _ hflush => (h.flushed hregistry hcount hscope hflush).rows) name none).of_ok hrun
  cases hresolved
  have hafter : after.Intact course.db.environment terms course.deleted := by
    have hlooked := h.select hregistry hcount name none
    rw [Database.run_of_ok hscope hrun] at hlooked
    exact hlooked.opened after rfl
  have hrest : after.AtRest := by
    have hrests := (Scope.flush_rests course.db.environment _).of_ok hselected.flushes
    exact ⟨hselected.loads.settled hrests.settled, hselected.loads.links.trans hrests.unlinked⟩
  have hrepresents : after.Represents model rows.toList handles := by
    simpa [StoredRow.isSelected] using hselected.represents
  have hrows := (hselected.loads.visibleRows model.tableName).trans hselected.visible
  obtain ⟨listing, hhandles, hlists⟩ := hrepresents.exists_listing hafter.rooted hrows
  obtain ⟨_, hsame, hstored⟩ := hlists.rows
  obtain rfl := Except.ok.inj (hrows.symm.trans hsame)
  exact ⟨model, h.registry_eq ▸ hmodel, hname, flushed, rows, listing, hselected,
    h.flushed hregistry hcount hscope hselected.flushes, hafter, hrest, hstored, hhandles, hlists⟩

end Course.Intact

/-- Look-ups agree with each other and with the rows.  Take a database to which nothing has happened and any
course of events in which the records that come from outside are of its models, and have their rows when
they have a key.  When all records of a model are looked up, what is returned lists the rows that are
visible after the flush, each once and by increasing keys, with handles of records that have the keys.
Afterwards a key is found exactly if it is listed, with the handle of the list.  For every attribute whose
column can be read in each row of the list, and every value, the look-up by value returns the part of the list
whose rows hold the value; done instead of the look-up of all records, it finds the records of the same rows.
Where the column cannot be read in some row of the list, both fail; a column can be read in a row unless a
value that is bound to what the row holds there cannot be. -/
theorem look_ups_agree {db : Database} (hfresh : db.Fresh) {terms : Terms} (hgrounded : terms.grounded)
    {events : List Event} (hmeets : Course.Meets terms { db } events) :
    let course := events.foldl Course.step { db }
    ∀ name handles listed, course.db.run (Scope.all · name) = (.ok handles, listed) →
      ∃ model ∈ db.registry.models, model.name = name ∧ ∃ listing : List ListedRow,
        handles = listing.map ListedRow.handle ∧
        (∃ flushed rows, course.db.run Scope.flush = (.ok (), course.db.resume flushed) ∧
          flushed.visibleRows course.db.environment model.tableName = .ok rows ∧
          rows.toList = listing.map ListedRow.stored) ∧
        (∃ scope, listed.scope = some scope ∧ scope.Lists course.db.environment model listing) ∧
        (∀ id handle, (listed.run (Scope.find · name id)).1 = .ok handle ↔
          ∃ item ∈ listing, item.id = id ∧ item.handle = handle) ∧
        ∀ attr column, model.AttributeOf attr column →
          (∀ item ∈ listing, ∃ columns, item.row.Holds columns ∧
            ((∃ value, item.row.read column = .ok value) ↔ ∀ value,
              column.bind model.tableName value = .ok (storedColumn columns column.name) →
                value.Readable)) ∧
          (ListedRow.Read column listing → ∀ value,
            (listed.run (Scope.findAll · name attr value)).1 =
              .ok ((ListedRow.holding column value listing).map ListedRow.handle) ∧
            ∃ others found last, course.db.run (Scope.findAll · name attr value) = (.ok others, found) ∧
              found.scope = some last ∧
              List.Forall₂ (fun item other => last.StandsFor other name item.id)
                (ListedRow.holding column value listing) others) ∧
          (¬ListedRow.Read column listing → ∀ value,
            (∃ error, (listed.run (Scope.findAll · name attr value)).1 = .error error) ∧
            ∃ error, (course.db.run (Scope.findAll · name attr value)).1 = .error error) := by
  intro course name handles listed hall
  have h : course.Intact db.registry terms := hfresh.intact hmeets
  have hregistry := h.registry_consistent hfresh.consistent
  have hcount := h.counted hfresh.counted
  obtain ⟨scope, after, hscope, hrun, rfl⟩ := Database.run_eq_ok.1 hall
  obtain ⟨model, hregistered, rfl, flushed, rows, listing, hselected, hflushed, hafter, hrest, hstored, rfl,
    hlists⟩ := h.exists_listing hfresh.consistent hfresh.counted hscope hrun
  have hmodel : model ∈ course.db.registry.models := h.registry_eq.symm ▸ hregistered
  refine ⟨model, hregistered, rfl, listing, rfl, ?_, ⟨after, rfl, hlists⟩, ?_, ?_⟩
  · exact ⟨flushed, rows, Database.run_of_ok hscope hselected.flushes, hselected.visible, hstored⟩
  · intro id handle
    rw [← hlists.findsAt_iff hregistry hgrounded hafter hmodel hrest.settled,
      ← Scope.find_run_iff hregistry hcount hafter.rows hmodel]
    constructor
    · intro hfound
      obtain ⟨_, last, hopen, hlast, -⟩ := Database.run_eq_ok.1 (Prod.ext hfound rfl)
      cases hopen
      exact ⟨last, hlast⟩
    · rintro ⟨last, hlast⟩
      rw [Database.run_of_ok rfl hlast]
  · intro attr column hattr
    -- In the state that is left, and from the one before instead of listing all records.
    have hopen : (course.db.resume after).scope = some after := rfl
    have hlater := fun value =>
      hlists.findAll hregistry hcount hgrounded hafter hmodel hrest hattr value
    have hinstead := fun value =>
      hselected.findAll hregistry hcount hmodel hflushed.rows hstored hattr value
    refine ⟨?_, ?_, ?_⟩
    · intro item hitem
      have hrow := (hlists.visibleRow_iff (hlists.keyed item hitem).1).2 ⟨item, hitem, rfl, rfl⟩
      obtain ⟨columns, hwrote⟩ := hafter.rows.written model hmodel _ _ hrow
      obtain ⟨_, -, hcompiled⟩ := hregistry.mem_compiled hmodel
      exact ⟨columns, hwrote.holds (hcount model hmodel),
        hwrote.reads_iff (hcount model hmodel) hcompiled.columns_nodup hattr.1⟩
    · intro hread value
      constructor
      · obtain ⟨_, last, hlast, -, rfl⟩ := Database.run_done hopen
          (Scope.findAll · model.name attr value) (hlater value) fun _ h => h hread
        rw [hlast]
      · -- From the scope as it was, rows that do not hold the value are not loaded.
        obtain ⟨others, last, hother, -, hfound⟩ := Database.run_done hscope
          (Scope.findAll · model.name attr value) (hinstead value) fun _ h => h hread
        have hlooked := h.select hfresh.consistent hfresh.counted model.name (some (attr, value))
        rw [show course.db.run (Scope.select · model.name (some (attr, value))) = _ from hother] at hlooked
        exact ⟨others, _, last, hother, rfl, hfound.standsFor (hlooked.opened last rfl).rooted⟩
    · intro hunread value
      obtain ⟨error, _, hfailed, -⟩ := Database.run_failed hopen
        (Scope.findAll · model.name attr value) (hlater value) fun _ _ h => hunread h.1
      obtain ⟨error', _, hfailed', -⟩ := Database.run_failed hscope
        (Scope.findAll · model.name attr value) (hinstead value) fun _ _ h => hunread h.1
      exact ⟨⟨error, congrArg Prod.fst hfailed⟩, error', congrArg Prod.fst hfailed'⟩

/-- In another scope a second link and its holder are made. -/
def anotherLinkIsHeld : List Event := linkIsHeld ++ [
  .openScope, .deed (.act (.find "Link" 1)), .deed (.act (.create "Link")),
  .deed (.act (.create "Holder")), .deed (.act (.setReference 2 "link" 1))]

/-- The stored holder is listed before the one that was flushed by the look-up; only the first refers to the
first link. -/
theorem look_ups_agree_on_holders :
    let course := anotherLinkIsHeld.foldl Course.step { db := linksAndHolders }
    let listed := (course.db.run (Scope.all · "Holder")).2
    ∃ listing : List ListedRow, listing.map ListedRow.handle = [3, 2] ∧
      (∀ id handle, (listed.run (Scope.find · "Holder" id)).1 = .ok handle ↔
        ∃ item ∈ listing, item.id = id ∧ item.handle = handle) ∧
      ∃ column : Column, column.name = "_link_id" ∧
        (ListedRow.holding column (.integer 1) listing).map ListedRow.handle = [3] := by
  let terms : Terms := { grounded := True, undeleted := True }
  have hmeets : Course.Meets terms { db := linksAndHolders } anotherLinkIsHeld :=
    Course.meets_of_brings_nothing (by simp [anotherLinkIsHeld, linkIsHeld])
      (by simp [anotherLinkIsHeld, linkIsHeld]) _
  obtain ⟨hhandles, hheld⟩ :
      let course := anotherLinkIsHeld.foldl Course.step { db := linksAndHolders }
      let all := course.db.run (Scope.all · "Holder")
      all.1 = .ok [3, 2] ∧
        (all.2.run (Scope.findAll · "Holder" "link" (.integer 1))).1 = .ok [3] := by
    decide +kernel
  have hattribute : ∀ model ∈ linksAndHolders.registry.models, model.name = "Holder" →
      ∃ column ∈ model.columns, column.name = "_link_id" ∧ ∃ relationship ∈ model.relationships,
        relationship.name = "link" ∧ relationship.column = column.name := by
    decide +kernel
  have hmain := look_ups_agree linksAndHolders_fresh trivial hmeets
  -- From here on the course is not computed any more.
  generalize anotherLinkIsHeld.foldl Course.step { db := linksAndHolders } = course at *
  obtain ⟨model, hmodel, hname, listing, hlisted, -, -, hfind, hvalue⟩ :=
    hmain "Holder" [3, 2] _ (Prod.ext hhandles rfl)
  obtain ⟨column, hcolumn, hlink, hrelationship⟩ := hattribute model hmodel hname
  obtain ⟨-, hagree, hfail⟩ := hvalue "link" column ⟨hcolumn, Or.inr hrelationship⟩
  have hread : ListedRow.Read column listing := by
    by_contra hunread
    obtain ⟨⟨error, hfailed⟩, -⟩ := hfail hunread (.integer 1)
    cases hheld.symm.trans hfailed
  have hholding := (hagree hread (.integer 1)).1
  exact ⟨listing, hlisted.symm, hfind, column, hlink,
    (Except.ok.inj (hheld.symm.trans hholding)).symm⟩

/-- A note is made, with a time of day for a mark that cannot be read. -/
def noteIsMarked : List Event := [
  .createSchema, .openScope, .deed (.act (.create "Note")),
  .deed (.act (.assign 0 "marks" (.list [.time .strayLeap])))]

/-- All notes are listed, but those without marks are not found, though the only note has one. -/
theorem marks_are_listed_but_not_looked_up :
    let course := noteIsMarked.foldl Course.step { db := gradedNotes }
    let listed := course.db.run (Scope.all · "Note")
    listed.1 = .ok [0] ∧ (listed.2.run (Scope.find · "Note" 1)).1 = .ok 0 ∧
      ∃ error, (listed.2.run (Scope.findAll · "Note" "marks" (.list []))).1 = .error error := by
  obtain ⟨hall, hfind, hnone⟩ :
      let course := noteIsMarked.foldl Course.step { db := gradedNotes }
      let listed := course.db.run (Scope.all · "Note")
      listed.1 = .ok [0] ∧ (listed.2.run (Scope.find · "Note" 1)).1 = .ok 0 ∧
        (listed.2.run (Scope.findAll · "Note" "marks" (.list []))).1.toOption.isNone = true := by
    decide +kernel
  exact ⟨hall, hfind, toOption_eq_none.1 (Option.isNone_iff_eq_none.1 hnone)⟩

end RecordStore
