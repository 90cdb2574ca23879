import RecordStore.Proofs.Codec.Normalizing
import RecordStore.Proofs.Model.Rows
import RecordStore.Proofs.Value.Equality

/-!
# Values and what is loaded for them

A stored form stands for a value, its content (`Column.Reloads`): a column loads exactly that, and only where
it encodes what it holds and a time of day in the content cannot be read it loads nothing.  The stored form
of a value stands for the value, except that an integer in a column of floating-point numbers or decimals
is kept as such a number (`Column.reloads_of_bind`).  A column mirrors a value (`Column.Mirrors`) with content
whose items are alike, or with the number that the value widens to.
-/

namespace RecordStore

/-- An integer is kept as a number of another type. -/
inductive StorageKind.Widens : StorageKind → Value → Value → Prop where
  | float (n : Int64) : Widens float (.integer n) (.float (.ofInt64 n))
  | numeric (n : Int64) : Widens numeric (.integer n) (.decimal (.ofInt64 n))

/-- What a stored form of a column stands for: it is loaded as this and as nothing else, and it is loaded
unless it is encoded and a time of day in it cannot be read. -/
def Column.Reloads (column : Column) (stored content : Value) : Prop :=
  ∀ loaded, column.load stored = .ok loaded ↔
    (column.kind.isEncoded = true → content.Readable) ∧ loaded = content

/-- What a column holds for a value that a record holds. -/
def Column.Mirrors (column : Column) (value loaded : Value) : Prop :=
  loaded.AlikeItems value ∨ column.kind.Widens value loaded

namespace Column

variable {column : Column} {table : String} {value stored loaded : Value}

theorem Mirrors.refl (column : Column) (value : Value) : column.Mirrors value value :=
  Or.inl (.same value)

/-- What mirrors a value mirrors all values whose items are alike. -/
theorem Mirrors.of_alike (h : column.Mirrors value loaded) {other : Value}
    (halike : value.AlikeItems other) : column.Mirrors other loaded := by
  rcases h with h | h
  · exact Or.inl (h.trans halike)
  · -- Only integers widen, and nothing but the same integer is alike.
    have hsame : other = value := by
      generalize column.kind = kind at h
      cases h <;> cases halike <;> rfl
    rw [hsame]
    exact Or.inr h

theorem widens_of_scalar? {kind : StorageKind} (h : kind.scalar? value = some stored) :
    stored = value ∨ kind.Widens value stored := by
  unfold StorageKind.scalar? at h
  split at h <;> cases h
  case h_4 => exact Or.inr (.float _)
  case h_9 => exact Or.inr (.numeric _)
  all_goals exact Or.inl rfl

/-! ## What stored forms stand for -/

theorem reloads_of_load_eq (hload : column.load stored = .ok stored)
    (hplain : column.kind.isEncoded = true → stored.Readable) : column.Reloads stored stored := by
  intro loaded
  rw [hload, Except.ok.injEq, eq_comm]
  exact (and_iff_right hplain).symm

theorem reloads_null (column : Column) : column.Reloads .null .null :=
  reloads_of_load_eq rfl fun _ => trivial

theorem reloads_integer (column : Column) (n : Int64) : column.Reloads (.integer n) (.integer n) :=
  reloads_of_load_eq rfl fun _ => trivial

namespace Reloads

variable {content : Value}

theorem load_eq (h : column.Reloads stored content)
    (hreadable : column.kind.isEncoded = true → content.Readable) : column.load stored = .ok content :=
  (h content).2 ⟨hreadable, rfl⟩

theorem of_load (h : column.Reloads stored content) (hload : column.load stored = .ok loaded) :
    loaded = content :=
  ((h loaded).1 hload).2

/-- The content can be read exactly if the stored form can be read from its row and is loaded. -/
theorem readable_iff (h : column.Reloads stored content) (hadmits : column.Admits table stored) :
    content.Readable ↔ stored.Readable ∧ ∃ loaded, column.load stored = .ok loaded := by
  by_cases hencoded : column.kind.isEncoded = true
  · constructor
    · intro hreadable
      exact ⟨hadmits.readable hencoded, content, h.load_eq fun _ => hreadable⟩
    · rintro ⟨-, loaded, hload⟩
      exact ((h loaded).1 hload).1 hencoded
  · -- Other columns load what they hold.
    have hload := hadmits.load_eq (Bool.eq_false_iff.2 hencoded)
    obtain rfl := h.of_load hload
    exact ⟨fun hreadable => ⟨hreadable, stored, hload⟩, fun hreadable => hreadable.1⟩

end Reloads

/-- A stored form stands for what is loaded from it. -/
theorem Admits.reloads_of_load (h : column.Admits table stored) (hload : column.load stored = .ok loaded) :
    column.Reloads stored loaded := by
  have hreadable : column.kind.isEncoded = true → loaded.Readable := by
    intro hencoded
    have hstored := h.readable hencoded
    cases stored with
    | bytes bytes =>
        have hdecode : column.load (.bytes bytes) = Error.ofData (decode bytes) := if_pos hencoded
        rw [hdecode] at hload
        exact readable_of_decode (ofData_eq_ok.1 hload)
    | _ =>
        cases hload
        exact hstored
  intro other
  constructor
  · intro hother
    exact ⟨hreadable, Except.ok.inj (hother.symm.trans hload)⟩
  · rintro ⟨-, rfl⟩
    exact hload

theorem reloads_of_bind (h : column.bind table value = .ok stored) (hordered : value.KeyOrdered) :
    ∃ content, column.Reloads stored content ∧
      (content = value ∨ column.kind.Widens value content) := by
  rcases bind_cases h with ⟨rfl, rfl, -⟩ | ⟨-, hencoded, hblob⟩ | ⟨-, hplain, hscalar⟩
  · exact ⟨.null, column.reloads_null, Or.inl rfl⟩
  · refine ⟨value, ?_, Or.inl rfl⟩
    intro loaded
    rw [load_blob_iff hencoded hblob, value.keyOrder_eq hordered]
    exact and_congr_left' ⟨fun hreadable _ => hreadable, fun hreadable => hreadable hencoded⟩
  · have hscalar := scalar?_of_bindScalar hscalar
    refine ⟨stored, reloads_of_load_eq (column.load_of_not_bytes (scalar?_cases hscalar).2) ?_,
      widens_of_scalar? hscalar⟩
    intro hencoded
    rw [hplain] at hencoded
    cases hencoded

/-- What the stored form of a bound value stands for mirrors the value. -/
theorem mirrors_of_bind (h : column.bind table value = .ok stored) (hordered : value.KeyOrdered) :
    ∃ content, column.Reloads stored content ∧ column.Mirrors value content := by
  obtain ⟨content, hreloads, rfl | hwidens⟩ := reloads_of_bind h hordered
  · exact ⟨_, hreloads, .refl column _⟩
  · exact ⟨content, hreloads, Or.inr hwidens⟩

/-- What is loaded from a stored form is in key order. -/
theorem Admits.keyOrdered_of_load (h : column.Admits table stored) (hload : column.load stored = .ok value) :
    value.KeyOrdered := by
  by_cases hencoded : column.kind.isEncoded = true
  · rcases h with rfl | ⟨origin, hbind⟩
    · cases hload
      trivial
    · rcases bind_cases hbind with ⟨-, rfl, -⟩ | ⟨-, -, hblob⟩ | ⟨-, hscalar, -⟩
      · cases hload
        trivial
      · obtain ⟨-, rfl⟩ := (load_blob_iff hencoded hblob).1 hload
        exact origin.keyOrdered_keyOrder
      · rw [hencoded] at hscalar
        cases hscalar
  · rw [h.load_eq (Bool.eq_false_iff.2 hencoded)] at hload
    cases hload
    exact h.keyOrdered

end Column

/-- What a stored form stands for is read from its row where the times of day in it can be read. -/
theorem Model.Wrote.read_eq_ok {model : Model} {row : StoredRow} {columns : List (String × Value)}
    (h : model.Wrote row columns) (hcount : model.columns.length < 4294967296)
    (hdistinct : (model.columns.map (·.name)).Nodup) {column : Column} (hmem : column ∈ model.columns)
    {content loaded : Value} (hreloads : column.Reloads (storedColumn columns column.name) content) :
    row.read column = .ok loaded ↔ content.Readable ∧ loaded = content := by
  rw [(h.holds hcount).read_eq_ok, hreloads.readable_iff (h.admits_column hdistinct hmem)]
  constructor
  · rintro ⟨hreadable, hload⟩
    exact ⟨⟨hreadable, loaded, hload⟩, hreloads.of_load hload⟩
  · rintro ⟨⟨hreadable, other, hload⟩, rfl⟩
    obtain rfl := hreloads.of_load hload
    exact ⟨hreadable, hload⟩

end RecordStore
