import RecordStore.Proofs.Model.Reloading
import RecordStore.Proofs.Records.Changes
import RecordStore.Proofs.Scope.Loading

/-!
# What records hold

A record is whole when it holds a value in each column and its own key in the column of the primary key
(`Record.Whole`).  Whatever is done to it, each attribute then has a new value and is marked, or has the
value it had, or one whose items are alike (`Record.Retains`).  So an attribute that is not marked still
reflects the stored form that it did (`Record.Retains.reflects`).
-/

namespace RecordStore

namespace Record

variable {find? : String → Option Model} {model : Model} {record before after : Record}
  {column : Column} {name : String} {stored value : Value} {id : Int64}

/-! ## Whole records -/

/-- A record holds a value in each column, and its key where the key belongs. -/
structure Whole (record : Record) : Prop where
  complete : ∀ column ∈ record.model.columns, ∃ value, record.values.find? column.name = some value
  keyOrdered : ∀ name value, record.values.find? name = some value → value.KeyOrdered
  keyed : ∀ id column, record.id = some id → record.model.primaryKey? = some column →
    record.values.find? column.name = some (.integer id)

/-- The value of a column is what a stored form stands for, or is mirrored by it. -/
def Reflects (record : Record) (column : Column) (stored : Value) : Prop :=
  ∃ value content, record.values.find? column.name = some value ∧
    column.Reloads stored content ∧ column.Mirrors value content

theorem get_eq_ok : record.get name = .ok value ↔ record.values.find? name = some value := by
  unfold get
  cases record.values.find? name <;> simp

theorem eq_null_of_find?_new {collections : List String}
    (h : (new model collections).values.find? name = some value) : value = .null := by
  have hmem := Entries.mem_of_mem_ofList (Entries.mem_of_find? h)
  obtain ⟨_, -, heq⟩ := List.mem_map.1 hmem
  cases heq
  rfl

theorem find?_new (collections : List String) (hmem : column ∈ model.columns) :
    (new model collections).values.find? column.name = some .null := by
  have hthere : ((new model collections).values.find? column.name).isSome = true := by
    refine Entries.isSome_find?_ofList ?_
    rw [List.map_map]
    exact List.mem_map_of_mem hmem
  obtain ⟨value, hvalue⟩ := Option.isSome_iff_exists.1 hthere
  rw [hvalue, eq_null_of_find?_new hvalue]

theorem whole_new (model : Model) (collections : List String) : (new model collections).Whole where
  complete _ hmem := ⟨.null, find?_new collections hmem⟩
  keyOrdered _ value hvalue := by
    rw [eq_null_of_find?_new hvalue]
    trivial
  keyed _ _ hid := by cases hid

theorem Whole.restore (h : record.Whole) (hid : record.id = none) {entry : String × Value}
    (hentry : entry.2.KeyOrdered) : (record.restore entry).Whole ∧ (record.restore entry).id = none := by
  unfold Record.restore
  by_cases hknown : record.values.contains entry.1 = true
  · rw [if_pos hknown]
    refine ⟨⟨?_, ?_, ?_⟩, hid⟩
    · intro column hcolumn
      rw [find?_putValue]
      by_cases hname : column.name = entry.1
      · exact ⟨entry.2, if_pos hname⟩
      · rw [if_neg hname]
        exact h.complete column hcolumn
    · intro name value hvalue
      rw [find?_putValue] at hvalue
      by_cases hname : name = entry.1
      · rw [if_pos hname] at hvalue
        cases hvalue
        exact hentry
      · rw [if_neg hname] at hvalue
        exact h.keyOrdered name value hvalue
    · intro id column hkey
      have hkey' : record.id = some id := hkey
      rw [hid] at hkey'
      cases hkey'
  · rw [if_neg hknown]
    exact ⟨h, hid⟩

theorem Whole.foldl_restore (h : record.Whole) (hid : record.id = none)
    {loaded : List (String × Value)} (hloaded : ∀ entry ∈ loaded, entry.2.KeyOrdered) :
    (loaded.foldl Record.restore record).Whole := by
  induction loaded generalizing record with
  | nil => exact h
  | cons entry rest ih =>
      obtain ⟨hwhole, hnone⟩ := h.restore hid (hloaded entry List.mem_cons_self)
      exact ih hwhole hnone fun other hother => hloaded other (List.mem_cons_of_mem _ hother)

theorem find?_assignId_key (id : Int64) (hkey : record.model.primaryKey? = some column) :
    (record.assignId id).values.find? column.name = some (.integer id) := by
  unfold assignId
  rw [hkey]
  exact (find?_putValue ..).trans (if_pos rfl)

/-- A record stays whole with another key. -/
theorem Whole.assignId (h : record.Whole) (id : Int64) : (record.assignId id).Whole := by
  have hvalues : ∀ name, (record.assignId id).values.find? name = some (.integer id) ∨
      (record.assignId id).values.find? name = record.values.find? name := by
    intro name
    by_cases hname : ∀ key, record.model.primaryKey? = some key → name ≠ key.name
    · exact Or.inr (find?_assignId hname)
    · push Not at hname
      obtain ⟨key, hkey, rfl⟩ := hname
      exact Or.inl (find?_assignId_key id hkey)
  constructor
  case complete =>
    intro column hcolumn
    rw [assignId_model] at hcolumn
    rcases hvalues column.name with hvalue | hvalue
    · exact ⟨_, hvalue⟩
    · rw [hvalue]
      exact h.complete column hcolumn
  case keyOrdered =>
    intro name value hvalue
    rcases hvalues name with hnew | hsame
    · rw [hnew] at hvalue
      cases hvalue
      trivial
    · exact h.keyOrdered name value (hsame.symm.trans hvalue)
  case keyed =>
    intro key column hkey hcolumn
    rw [assignId_id] at hkey
    cases hkey
    rw [assignId_model] at hcolumn
    exact find?_assignId_key id hcolumn

theorem whole_loaded (model : Model) (collections : List String) (id : Int64)
    {loaded : List (String × Value)} (hloaded : ∀ entry ∈ loaded, entry.2.KeyOrdered) :
    (Record.loaded model collections id loaded).Whole :=
  ((whole_new model collections).foldl_restore rfl hloaded).assignId id

/-! ## Changes of records -/

/-- How a record changes in an attribute.  A value that is not marked stays, or only items of it are
replaced by equal ones. -/
inductive Retained (before after : Record) (name : String) : Prop where
  | same : after.values.find? name = before.values.find? name →
      (before.isChanged name = true → after.isChanged name = true) → Retained before after name
  | marked (value : Value) : after.values.find? name = some value → value.KeyOrdered →
      after.isChanged name = true → Retained before after name
  | alike (old new : Value) : before.values.find? name = some old →
      after.values.find? name = some new → new.KeyOrdered → old.AlikeItems new →
      after.isChanged name = before.isChanged name → Retained before after name

/-- How a record changes that keeps its key. -/
structure Retains (before after : Record) : Prop where
  model : after.model = before.model
  id : after.id = before.id
  key : ∀ column, before.model.primaryKey? = some column →
    after.values.find? column.name = before.values.find? column.name
  columns : ∀ name, Retained before after name

namespace Retains

theorem whole (h : before.Retains after) (hwhole : before.Whole) : after.Whole where
  complete column hcolumn := by
    rw [h.model] at hcolumn
    cases h.columns column.name with
    | same hvalue =>
        rw [hvalue]
        exact hwhole.complete column hcolumn
    | marked value hvalue => exact ⟨value, hvalue⟩
    | alike _ new _ hnew => exact ⟨new, hnew⟩
  keyOrdered name value hfound := by
    cases h.columns name with
    | same hvalue => exact hwhole.keyOrdered name value (hvalue.symm.trans hfound)
    | marked _ hvalue hordered =>
        rw [hvalue] at hfound
        cases hfound
        exact hordered
    | alike _ _ _ hnew hordered =>
        rw [hnew] at hfound
        cases hfound
        exact hordered
  keyed id column hid hkey := by
    rw [h.model] at hkey
    rw [h.key column hkey]
    exact hwhole.keyed id column (h.id.symm.trans hid) hkey

theorem unmarked (h : before.Retains after) (hunmarked : after.isChanged name = false) :
    before.isChanged name = false := by
  cases h.columns name with
  | same _ hmarks =>
      cases hcase : before.isChanged name with
      | false => rfl
      | true =>
          rw [hmarks hcase] at hunmarked
          cases hunmarked
  | marked _ _ _ hmarked =>
      rw [hmarked] at hunmarked
      cases hunmarked
  | alike _ _ _ _ _ _ hsame => exact hsame.symm.trans hunmarked

theorem reflects (h : before.Retains after) (hunmarked : after.isChanged column.name = false)
    (hreflects : before.Reflects column stored) : after.Reflects column stored := by
  obtain ⟨value, content, hvalue, hreloads, hmirrors⟩ := hreflects
  cases h.columns column.name with
  | same hsame => exact ⟨value, content, hsame.trans hvalue, hreloads, hmirrors⟩
  | marked _ _ _ hmarked =>
      rw [hmarked] at hunmarked
      cases hunmarked
  | alike old new hold hnew _ halike =>
      obtain rfl := Option.some.inj (hvalue.symm.trans hold)
      exact ⟨new, content, hnew, hreloads, hmirrors.of_alike halike⟩

/-- What is empty stays empty as long as it is not marked. -/
theorem null (h : before.Retains after) (hunmarked : after.isChanged name = false)
    (hnull : before.values.find? name = some .null) : after.values.find? name = some .null := by
  cases h.columns name with
  | same hsame => exact hsame.trans hnull
  | marked _ _ _ hmarked =>
      rw [hmarked] at hunmarked
      cases hunmarked
  | alike old new hold hnew _ halike =>
      obtain rfl := Option.some.inj (hnull.symm.trans hold)
      cases halike
      exact hnew

end Retains

theorem retains_markChanged (record : Record) (attr : String) :
    record.Retains (record.markChanged attr) where
  model := rfl
  id := rfl
  key _ _ := rfl
  columns name := by
    refine .same rfl ?_
    intro hmarked
    rw [isChanged_markChanged, hmarked, ite_self]

/-! ### Putting back -/

theorem putBack_keeps (record : Record) (attr : String) (value : Value) (marked : Bool) :
    (record.putBack attr value marked).model = record.model ∧
      (record.putBack attr value marked).id = record.id := by
  unfold putBack
  cases marked with
  | true => exact ⟨rfl, rfl⟩
  | false => exact ⟨rfl, rfl⟩

theorem find?_putBack (record : Record) (attr : String) (value : Value) (marked : Bool) (name : String) :
    (record.putBack attr value marked).values.find? name =
      if name = attr then some value else record.values.find? name := by
  unfold putBack
  cases marked with
  | false => exact find?_putValue ..
  | true => exact find?_putValue ..

theorem isChanged_putBack (record : Record) (attr : String) (value : Value) (marked : Bool)
    (name : String) :
    (record.putBack attr value marked).isChanged name =
      if name = attr then record.isChanged attr || marked else record.isChanged name := by
  unfold putBack
  cases marked with
  | false =>
      show record.isChanged name = _
      split
      · rename_i hname
        rw [hname, Bool.or_false]
      · rfl
  | true =>
      rw [Bool.or_true]
      exact isChanged_markChanged ..

/-- To put back what was there, unmarked, is to do nothing. -/
theorem putBack_self {attr : String} (h : record.values.find? attr = some value) :
    record.putBack attr value false = record := by
  have hvalues : record.values.insert attr value = record.values := by
    refine SortedMap.ext_find? fun name => ?_
    rw [SortedMap.find?_insert]
    by_cases hname : name = attr
    · rw [if_pos hname, hname, h]
    · rw [if_neg hname]
  show { record with values := record.values.insert attr value } = record
  rw [hvalues]

/-- A value is stored in an attribute, which is marked or gets alike items, and is not the key. -/
theorem retains_putBack {attr : String} (marked : Bool)
    (hkey : ∀ key, record.model.primaryKey? = some key → attr ≠ key.name) (hordered : value.KeyOrdered)
    (halike : marked = false → ∃ old, record.values.find? attr = some old ∧ old.AlikeItems value) :
    record.Retains (record.putBack attr value marked) := by
  constructor
  case model => exact (putBack_keeps ..).1
  case id => exact (putBack_keeps ..).2
  case key => exact fun column hcolumn => (find?_putBack ..).trans (if_neg (hkey column hcolumn).symm)
  case columns =>
    intro name
    have hvalues := find?_putBack record attr value marked name
    have hmarks := isChanged_putBack record attr value marked name
    by_cases hname : name = attr
    · rw [if_pos hname] at hvalues hmarks
      subst hname
      cases marked with
      | true => exact .marked value hvalues hordered (hmarks.trans (Bool.or_true _))
      | false =>
          obtain ⟨old, hold, hitems⟩ := halike rfl
          exact .alike old value hold hvalues hordered hitems (hmarks.trans (Bool.or_false _))
    · rw [if_neg hname] at hvalues hmarks
      exact .same hvalues hmarks.trans

/-- Storing a value and marking it is putting it back as changed. -/
theorem retains_assign {attr : String}
    (hkey : ∀ key, record.model.primaryKey? = some key → attr ≠ key.name) (hordered : value.KeyOrdered) :
    record.Retains ((record.putValue attr value).markChanged attr) :=
  retains_putBack true hkey hordered fun hnone => by cases hnone

theorem retains_set (hcompiled : record.model.Compiled find?) {attr : String} (hordered : value.KeyOrdered)
    (h : record.set attr value = .ok after) : record.Retains after := by
  unfold set at h
  cases hcolumn : record.model.column? attr with
  | none =>
      simp only [hcolumn] at h
      cases h
  | some column =>
      simp only [hcolumn] at h
      obtain ⟨hmem, rfl⟩ := (find?_name_eq_some_iff hcompiled.columns_nodup).1 hcolumn
      by_cases hprimary : column.primaryKey = true
      · rw [if_pos hprimary] at h
        cases h
      · rw [if_neg hprimary] at h
        cases h
        exact retains_assign (fun key hkey =>
          hcompiled.name_ne_key hmem (Bool.eq_false_iff.2 hprimary) hkey) hordered

/-- What can be changed in place is the value of a tracked column. -/
theorem of_mutableValue {attr : String} (h : record.mutableValue attr = .ok value) :
    ∃ column, record.model.column? attr = some column ∧ column.tracked = true ∧
      record.values.find? attr = some value := by
  unfold mutableValue at h
  cases hcolumn : record.model.column? attr with
  | none =>
      simp only [hcolumn] at h
      cases h
  | some column =>
      simp only [hcolumn] at h
      by_cases htracked : column.tracked = true
      · rw [if_pos htracked] at h
        exact ⟨column, rfl, htracked, get_eq_ok.1 h⟩
      · rw [if_neg htracked] at h
        cases h

/-- A container that was changed in place is put back. -/
theorem retains_changed (hcompiled : record.model.Compiled find?) (hwhole : record.Whole)
    {attr : String} {viewed : Value} (hviewed : record.mutableValue attr = .ok viewed) {content : Content}
    (hkept : Content.Kept { value := viewed, marked := false } content) :
    record.Retains (record.putBack attr content.value content.marked) := by
  obtain ⟨column, hcolumn, htracked, hvalue⟩ := of_mutableValue hviewed
  obtain ⟨hmem, rfl⟩ := (find?_name_eq_some_iff hcompiled.columns_nodup).1 hcolumn
  have hordered := hwhole.keyOrdered _ _ hvalue
  refine retains_putBack content.marked ?_ (hkept.keyOrdered hordered) ?_
  · intro key hkey
    exact hcompiled.name_ne_key hmem (hcompiled.of_tracked hmem htracked) hkey
  · intro hunmarked
    exact ⟨viewed, hvalue, hkept.alike hordered hunmarked⟩

end Record

end RecordStore
