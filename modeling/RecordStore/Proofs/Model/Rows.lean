import RecordStore.Proofs.Codec.ColumnReading
import RecordStore.Proofs.Codec.Uniqueness
import RecordStore.Proofs.Model.Binding
import RecordStore.Proofs.Model.Compilation
import RecordStore.Scope.RowImage

/-!
# Rows of models

A row holds the columns that its bytes were made from, whether or not it can be read
(`StoredRow.Holds`).  Columns fit a model when they are one stored form for each column of the model, in
their order (`Model.Fits`).  A row is written for a model from columns that fit (`Model.Wrote`), which it then
holds.

Data columns are those that hold neither the key of their own table nor that of another.
-/

namespace RecordStore

/-! ## Data columns -/

/-- A column of a model that is neither a primary key nor a foreign key. -/
structure Model.DataColumn (model : Model) (column : Column) : Prop where
  mem : column ∈ model.columns
  not_key : column.primaryKey = false
  not_reference : column.foreignKey = none

namespace Model.DataColumn

variable {find? : String → Option Model} {model : Model} {column : Column}

theorem name_ne_key (h : model.DataColumn column) (hcompiled : model.Compiled find?) {key : Column}
    (hkey : model.primaryKey? = some key) : column.name ≠ key.name :=
  hcompiled.name_ne_key h.mem h.not_key hkey

theorem name_ne_reference (h : model.DataColumn column) (hcompiled : model.Compiled find?)
    {relationship : Relationship} (hmem : relationship ∈ model.relationships) :
    column.name ≠ relationship.column := by
  intro heq
  rcases hcompiled.relationship_column hmem with
    ⟨_, _, _, _, reference, hreference, hname, hforeign⟩
  have hsame : column = reference :=
    List.inj_on_of_nodup_map hcompiled.columns_nodup h.mem hreference (heq.trans hname.symm)
  rw [← hsame, h.not_reference] at hforeign
  cases hforeign

end Model.DataColumn

/-! ## Columns side by side with what they hold -/

theorem storedColumn_cons (entry : String × Value) (rest : List (String × Value)) (name : String) :
    storedColumn (entry :: rest) name =
      if entry.1 = name then entry.2 else storedColumn rest name := by
  unfold storedColumn
  by_cases hname : entry.1 = name
  · rw [if_pos hname, List.find?_cons_of_pos (by simpa using hname)]
  · rw [if_neg hname, List.find?_cons_of_neg (by simpa using hname)]

/-- What stands beside each column holds of what is found under its name. -/
theorem storedColumn_of_forall₂ {holds : Column → Value → Prop} {columns : List Column}
    {entries : List (String × Value)} (hdistinct : (columns.map (·.name)).Nodup)
    (h : List.Forall₂ (fun (column : Column) (entry : String × Value) =>
      entry.1 = column.name ∧ holds column entry.2) columns entries)
    {column : Column} (hmem : column ∈ columns) :
    holds column (storedColumn entries column.name) := by
  induction h with
  | nil => cases hmem
  | @cons first entry rest _ hfirst _ ih =>
      rcases List.nodup_cons.1 hdistinct with ⟨hnew, hrest⟩
      rw [storedColumn_cons]
      rcases List.mem_cons.1 hmem with heq | hlater
      · rw [if_pos (by rw [hfirst.1, heq]), heq]
        exact hfirst.2
      · have hname : column.name ∈ rest.map (·.name) := List.mem_map_of_mem hlater
        have hother : ¬entry.1 = column.name := by
          intro heq
          rw [← heq, hfirst.1] at hname
          exact hnew hname
        rw [if_neg hother]
        exact ih hrest hlater

/-! ## What a row holds -/

/-- A row holds columns: its bytes are made from them, with the mappings in key order.  It is read as
exactly these columns if all times of day in them can be read, and not at all otherwise
(`StoredRow.Holds.decodeRow_iff`). -/
structure StoredRow.Holds (row : StoredRow) (columns : List (String × Value)) : Prop where
  count_lt : columns.length < 4294967296
  keyOrdered : ∀ column ∈ columns, column.2.KeyOrdered
  encoded : encodeRow columns = .ok row.data

namespace StoredRow.Holds

variable {row : StoredRow} {columns others : List (String × Value)} {name : String}

theorem decodeRow_iff (h : row.Holds columns) :
    decodeRow row.data = .ok others ↔ (∀ column ∈ columns, column.2.Readable) ∧ others = columns := by
  have hsame := Value.entriesKeyOrder_eq columns (Value.entriesKeyOrdered_iff.2 h.keyOrdered)
  by_cases hreadable : ∀ column ∈ columns, column.2.Readable
  · have hread := decodeRow_append h.count_lt h.encoded [] hreadable
    rw [List.append_nil, hsame] at hread
    rw [hread, Except.ok.injEq, eq_comm]
    exact (and_iff_right hreadable).symm
  · obtain ⟨fault, hfault⟩ := decodeRow_of_unreadable h.count_lt h.encoded [] hreadable
    rw [List.append_nil] at hfault
    rw [hfault]
    constructor
    · intro hfound
      cases hfound
    · intro hfound
      exact absurd hfound.1 hreadable

/-- One column is read as the row as a whole says, if its own times of day can be read. -/
theorem getColumn_iff (h : row.Holds columns) {found : Option Value} :
    getColumn row.data name = .ok found ↔
      (∀ column, (columns.find? fun entry => entry.1 == name) = some column → column.2.Readable) ∧
        found = (columns.find? fun entry => entry.1 == name).map (·.2) := by
  have hsame : (columns.find? fun entry => entry.1 == name).map (·.2.keyOrder) =
      (columns.find? fun entry => entry.1 == name).map (·.2) := by
    cases hfind : columns.find? fun entry => entry.1 == name with
    | none => rfl
    | some entry =>
        exact congrArg some (entry.2.keyOrder_eq (h.keyOrdered entry (List.mem_of_find?_eq_some hfind)))
  rw [getColumn_encodeRow_iff name h.count_lt h.encoded, hsame, and_comm]

/-- What a column is read as is what is stored in it, which can be read. -/
theorem of_getColumn (h : row.Holds columns) {found : Option Value}
    (hread : getColumn row.data name = .ok found) :
    (storedColumn columns name).Readable ∧ found.getD .null = storedColumn columns name := by
  obtain ⟨hreadable, rfl⟩ := h.getColumn_iff.1 hread
  unfold storedColumn
  cases hfind : columns.find? fun entry => entry.1 == name with
  | none => exact ⟨trivial, rfl⟩
  | some entry => exact ⟨hreadable entry hfind, rfl⟩

theorem getColumn_eq (h : row.Holds columns) (hreadable : (storedColumn columns name).Readable) :
    ∃ found, getColumn row.data name = .ok found ∧ found.getD .null = storedColumn columns name := by
  have hread : ∀ column, (columns.find? fun entry => entry.1 == name) = some column →
      column.2.Readable := by
    intro column hfind
    unfold storedColumn at hreadable
    rwa [hfind] at hreadable
  have hfound := h.getColumn_iff.2 ⟨hread, rfl⟩
  exact ⟨_, hfound, (h.of_getColumn hfound).2⟩

/-- The bytes of a row tell what it holds. -/
theorem unique (h : row.Holds columns) (h' : row.Holds others) : columns = others :=
  encodeRow_injective h.count_lt h'.count_lt h.encoded h'.encoded

/-- What a row is read as is what it holds. -/
theorem of_decodeRow (h : row.Holds columns) (hread : decodeRow row.data = .ok others) :
    others = columns :=
  (h.decodeRow_iff.1 hread).2

/-- Where all times of day can be read, a row that holds columns is read as these. -/
theorem decodeRow_eq (h : row.Holds columns) (hreadable : ∀ column ∈ columns, column.2.Readable) :
    decodeRow row.data = .ok columns :=
  h.decodeRow_iff.2 ⟨hreadable, rfl⟩

end StoredRow.Holds

/-- The value of a column, which is read without the others. -/
def StoredRow.read (row : StoredRow) (column : Column) : Except Error Value := do
  let stored ← Error.ofData (getColumn row.data column.name)
  column.load (stored.getD .null)

theorem StoredRow.Holds.read_eq_ok {row : StoredRow} {columns : List (String × Value)}
    (h : row.Holds columns) {column : Column} {value : Value} :
    row.read column = .ok value ↔ (storedColumn columns column.name).Readable ∧
      column.load (storedColumn columns column.name) = .ok value := by
  unfold StoredRow.read
  rw [bind_eq_ok]
  constructor
  · rintro ⟨found, hfound, hload⟩
    obtain ⟨hreadable, hstored⟩ := h.of_getColumn (ofData_eq_ok.1 hfound)
    exact ⟨hreadable, hstored ▸ hload⟩
  · rintro ⟨hreadable, hload⟩
    obtain ⟨found, hfound, hstored⟩ := h.getColumn_eq hreadable
    exact ⟨found, ofData_eq_ok.2 hfound, hstored.symm ▸ hload⟩

/-! ## Rows that fit -/

/-- The columns of a row of a model: beside each column, a stored form that it can hold. -/
def Model.Fits (model : Model) (columns : List (String × Value)) : Prop :=
  List.Forall₂ (fun (column : Column) (entry : String × Value) =>
    entry.1 = column.name ∧ column.Admits model.tableName entry.2) model.columns columns

namespace Model.Fits

variable {model : Model} {columns : List (String × Value)}

theorem names_eq (h : model.Fits columns) : columns.map (·.1) = model.columns.map (·.name) := by
  unfold Fits at h
  generalize model.columns = declared at h
  induction h with
  | nil => rfl
  | cons hfirst _ ih => rw [List.map_cons, List.map_cons, hfirst.1, ih]

theorem keyOrdered (h : model.Fits columns) : ∀ entry ∈ columns, entry.2.KeyOrdered := by
  unfold Fits at h
  generalize model.columns = declared, model.tableName = table at h
  induction h with
  | nil =>
      intro entry hmem
      cases hmem
  | cons hfirst _ ih =>
      intro entry hmem
      rcases List.mem_cons.1 hmem with rfl | hrest
      · exact hfirst.2.keyOrdered
      · exact ih entry hrest

theorem admits_column (h : model.Fits columns) (hdistinct : (model.columns.map (·.name)).Nodup)
    {column : Column} (hmem : column ∈ model.columns) :
    column.Admits model.tableName (storedColumn columns column.name) :=
  storedColumn_of_forall₂ hdistinct h hmem

theorem holds (h : model.Fits columns) (hcount : model.columns.length < 4294967296)
    {row : StoredRow} (hdata : encodeColumns columns = .ok row.data) : row.Holds columns := by
  have hlength : columns.length < 4294967296 := by
    rw [← List.Forall₂.length_eq h]
    exact hcount
  exact ⟨hlength, h.keyOrdered, ofData_eq_ok.1 hdata⟩

end Model.Fits

/-- A row that was written for a model from columns. -/
structure Model.Wrote (model : Model) (row : StoredRow) (columns : List (String × Value)) : Prop where
  data : encodeColumns columns = .ok row.data
  fits : model.Fits columns

namespace Model.Wrote

variable {model : Model} {row : StoredRow} {columns : List (String × Value)} {column : Column}

theorem names_eq (h : model.Wrote row columns) : columns.map (·.1) = model.columns.map (·.name) :=
  h.fits.names_eq

theorem holds (h : model.Wrote row columns) (hcount : model.columns.length < 4294967296) :
    row.Holds columns :=
  h.fits.holds hcount h.data

/-- A row tells what it was written from. -/
theorem unique (h : model.Wrote row columns) {others : List (String × Value)}
    (h' : model.Wrote row others) (hcount : model.columns.length < 4294967296) : columns = others :=
  (h.holds hcount).unique (h'.holds hcount)

theorem admits_column (h : model.Wrote row columns)
    (hdistinct : (model.columns.map (·.name)).Nodup) (hmem : column ∈ model.columns) :
    column.Admits model.tableName (storedColumn columns column.name) :=
  h.fits.admits_column hdistinct hmem

/-- A column can be read where every value that was bound to it can be. -/
theorem reads_iff (h : model.Wrote row columns) (hcount : model.columns.length < 4294967296)
    (hdistinct : (model.columns.map (·.name)).Nodup) (hmem : column ∈ model.columns) :
    (∃ value, row.read column = .ok value) ↔ ∀ value,
      column.bind model.tableName value = .ok (storedColumn columns column.name) → value.Readable := by
  rw [← (h.admits_column hdistinct hmem).loads_iff, ← exists_and_left]
  exact exists_congr fun value => (h.holds hcount).read_eq_ok

end Model.Wrote

end RecordStore
