import RecordStore.Model.Column
import RecordStore.Proofs.Codec.RoundTrip

/-!
# Stored forms

What `Column.bind` makes of a value is a scalar or an encoded blob, never a container
(`Column.bind_cases`).  A scalar is loaded as it is; a blob is loaded as the value that it was made from if
the times of day in it can be read, and not at all otherwise (`Column.load_blob_iff`).  A column holds nothing
else: each stored form is empty or is what some value is bound to (`Column.Admits`).
-/

namespace RecordStore

namespace Column

variable {column : Column} {value stored loaded : Value}

/-- A blob is loaded as the value that it was made from. -/
theorem load_blob_iff (hkind : column.kind.isEncoded = true) (h : blob value = .ok stored) :
    column.load stored = .ok loaded ↔ value.Readable ∧ loaded = value.keyOrder := by
  rcases bind_eq_ok.1 h with ⟨bytes, hbytes, h⟩
  cases pure_eq_ok.1 h
  have hload : column.load (.bytes bytes) = Error.ofData (decode bytes) := if_pos hkind
  rw [hload, ofData_eq_ok, decode_encode_iff (ofData_eq_ok.1 hbytes)]

theorem scalar?_cases {kind : StorageKind} (h : kind.scalar? value = some stored) :
    stored.KeyOrdered ∧ ∀ bytes, stored ≠ .bytes bytes := by
  unfold StorageKind.scalar? at h
  split at h
  all_goals
    cases h
    try exact ⟨trivial, fun bytes heq => by cases heq⟩

/-- A scalar is the value itself or a number that it widens to. -/
theorem readable_of_scalar? {kind : StorageKind} (h : kind.scalar? value = some stored) :
    stored.Readable ↔ value.Readable := by
  unfold StorageKind.scalar? at h
  split at h <;> cases h <;> exact Iff.rfl

theorem load_of_not_bytes (column : Column) (h : ∀ bytes, stored ≠ .bytes bytes) :
    column.load stored = .ok stored := by
  cases stored with
  | bytes bytes => exact absurd rfl (h bytes)
  | _ => rfl

/-- A scalar is bound to a stored form of its kind. -/
theorem scalar?_of_bindScalar {table : String} (h : column.bindScalar table value = .ok stored) :
    column.kind.scalar? value = some stored := by
  unfold bindScalar at h
  cases hscalar : column.kind.scalar? value with
  | none =>
      simp only [hscalar] at h
      cases h
  | some scalar =>
      simp only [hscalar] at h
      cases hlimit : column.kind.exceededLimit? value with
      | some limit =>
          simp only [hlimit] at h
          cases h
      | none =>
          simp only [hlimit] at h
          cases h
          rfl

/-- Outside containers, an empty column is checked for itself. -/
theorem bind_of_not_container (hkind : ∀ kind, column.kind ≠ .container kind) (table : String)
    (value : Value) :
    column.bind table value =
      if value.isNull then
        if column.nullable then .ok .null else .error (column.reject table .notNull)
      else if column.kind = .opaqueBlob then blob value
      else column.bindScalar table value := by
  unfold bind
  cases hcase : column.kind with
  | container kind => exact absurd hcase (hkind kind)
  | _ => rfl

/-- How a value is bound: an empty one where that is allowed, any other one as an encoded blob or as
a scalar. -/
theorem bind_cases {table : String} (h : column.bind table value = .ok stored) :
    (value = .null ∧ stored = .null ∧ column.nullable = true) ∨
    (value ≠ .null ∧ column.kind.isEncoded = true ∧ blob value = .ok stored) ∨
    (value ≠ .null ∧ column.kind.isEncoded = false ∧ column.bindScalar table value = .ok stored) := by
  -- A container column refuses an empty value even where it is nullable.
  by_cases hcontainer : ∃ kind, column.kind = .container kind
  · rcases hcontainer with ⟨kind, hkind⟩
    unfold bind at h
    simp only [hkind] at h
    by_cases hvalue : value.containerKind? = some kind
    · rw [if_pos hvalue] at h
      refine Or.inr (Or.inl ⟨?_, by rw [hkind]; rfl, h⟩)
      rintro rfl
      cases hvalue
    · rw [if_neg hvalue] at h
      cases h
  · have hkind : ∀ kind, column.kind ≠ .container kind := fun kind hkind => hcontainer ⟨kind, hkind⟩
    rw [bind_of_not_container hkind] at h
    by_cases hnull : value = .null
    · subst hnull
      rw [if_pos (by rfl)] at h
      by_cases hnullable : column.nullable = true
      · rw [if_pos hnullable] at h
        cases h
        exact Or.inl ⟨rfl, rfl, hnullable⟩
      · rw [if_neg hnullable] at h
        cases h
    · have hpresent : ¬value.isNull = true := by
        cases value with
        | null => exact absurd rfl hnull
        | _ => exact Bool.false_ne_true
      rw [if_neg hpresent] at h
      by_cases hblob : column.kind = .opaqueBlob
      · rw [if_pos hblob] at h
        exact Or.inr (Or.inl ⟨hnull, by rw [hblob]; rfl, h⟩)
      · rw [if_neg hblob] at h
        refine Or.inr (Or.inr ⟨hnull, ?_, h⟩)
        cases hcase : column.kind with
        | opaqueBlob => exact absurd hcase hblob
        | container kind => exact absurd hcase (hkind kind)
        | _ => rfl

/-- What was bound comes back from a row unchanged. -/
theorem keyOrdered_bind {table : String} (h : column.bind table value = .ok stored) :
    stored.KeyOrdered := by
  rcases bind_cases h with ⟨-, rfl, -⟩ | ⟨-, -, hblob⟩ | ⟨-, -, hscalar⟩
  · trivial
  · rcases bind_eq_ok.1 hblob with ⟨bytes, -, hbytes⟩
    cases pure_eq_ok.1 hbytes
    trivial
  · exact (scalar?_cases (scalar?_of_bindScalar hscalar)).1

/-- A column that may not be empty takes nothing empty. -/
theorem bind_null_of_not_nullable (hnullable : column.nullable = false) (table : String)
    (stored : Value) : column.bind table .null ≠ .ok stored := by
  intro h
  rcases bind_cases h with ⟨-, -, hallowed⟩ | ⟨hpresent, -⟩ | ⟨hpresent, -⟩
  · rw [hnullable] at hallowed
    cases hallowed
  · exact hpresent rfl
  · exact hpresent rfl

/-- Only an empty value is bound to nothing, and only where that is allowed. -/
theorem nullable_of_bind_null {table : String} (h : column.bind table value = .ok .null) :
    column.nullable = true := by
  rcases bind_cases h with ⟨-, -, hnullable⟩ | ⟨-, -, hblob⟩ | ⟨-, -, hscalar⟩
  · exact hnullable
  · rcases bind_eq_ok.1 hblob with ⟨bytes, -, hbytes⟩
    cases hbytes
  · have hfound := scalar?_of_bindScalar hscalar
    unfold StorageKind.scalar? at hfound
    split at hfound <;> cases hfound

end Column

/-! ## What a column can hold -/

/-- A stored form that a column of a table can hold: nothing, or what some value is bound to. -/
def Column.Admits (column : Column) (table : String) (stored : Value) : Prop :=
  stored = .null ∨ ∃ value, column.bind table value = .ok stored

namespace Column

variable {column : Column} {table : String} {stored : Value}

theorem Admits.keyOrdered (h : column.Admits table stored) : stored.KeyOrdered := by
  rcases h with rfl | ⟨value, hbind⟩
  · trivial
  · exact keyOrdered_bind hbind

/-- An encoded blob holds no time of day itself, so it can be read whatever was encoded. -/
theorem Admits.readable (h : column.Admits table stored) (hkind : column.kind.isEncoded = true) :
    stored.Readable := by
  rcases h with rfl | ⟨value, hbind⟩
  · trivial
  · rcases bind_cases hbind with ⟨-, rfl, -⟩ | ⟨-, -, hblob⟩ | ⟨-, hscalar, -⟩
    · trivial
    · obtain ⟨bytes, -, hbytes⟩ := bind_eq_ok.1 hblob
      cases pure_eq_ok.1 hbytes
      trivial
    · rw [hkind] at hscalar
      cases hscalar

/-- Containers are stored as blobs, so no stored form is one. -/
theorem Admits.containerKind?_eq (h : column.Admits table stored) : stored.containerKind? = none := by
  rcases h with rfl | ⟨value, hbind⟩
  · rfl
  · rcases bind_cases hbind with ⟨-, rfl, -⟩ | ⟨-, -, hblob⟩ | ⟨-, -, hscalar⟩
    · rfl
    · obtain ⟨bytes, -, hbytes⟩ := bind_eq_ok.1 hblob
      cases pure_eq_ok.1 hbytes
      rfl
    · have hfound := scalar?_of_bindScalar hscalar
      unfold StorageKind.scalar? at hfound
      split at hfound <;> cases hfound <;> rfl

/-- Columns that are not encoded load what they hold. -/
theorem Admits.load_eq (h : column.Admits table stored) (hkind : column.kind.isEncoded = false) :
    column.load stored = .ok stored := by
  rcases h with rfl | ⟨value, hbind⟩
  · rfl
  · rcases bind_cases hbind with ⟨-, rfl, -⟩ | ⟨-, hencoded, -⟩ | ⟨-, -, hscalar⟩
    · rfl
    · rw [hkind] at hencoded
      cases hencoded
    · exact column.load_of_not_bytes (scalar?_cases (scalar?_of_bindScalar hscalar)).2

/-- A column of integers holds no time of day. -/
theorem Admits.readable_of_integer (h : column.Admits table stored) (hkind : column.kind = .integer) :
    stored.Readable := by
  rcases h with rfl | ⟨value, hbind⟩
  · trivial
  · rcases bind_cases hbind with ⟨-, rfl, -⟩ | ⟨-, hencoded, -⟩ | ⟨-, -, hscalar⟩
    · trivial
    · rw [hkind] at hencoded
      cases hencoded
    · have hfound := scalar?_of_bindScalar hscalar
      rw [hkind] at hfound
      cases value <;> cases hfound
      trivial

/-- A stored form is read from its row and loaded where every value that is bound to it can be read. -/
theorem Admits.loads_iff (h : column.Admits table stored) :
    (stored.Readable ∧ ∃ loaded, column.load stored = .ok loaded) ↔
      ∀ value, column.bind table value = .ok stored → value.Readable := by
  constructor
  · rintro ⟨hreadable, loaded, hload⟩ value hbind
    rcases bind_cases hbind with ⟨rfl, -, -⟩ | ⟨-, hencoded, hblob⟩ | ⟨-, -, hscalar⟩
    · trivial
    · exact ((load_blob_iff hencoded hblob).1 hload).1
    · exact (readable_of_scalar? (scalar?_of_bindScalar hscalar)).1 hreadable
  · intro hall
    rcases h with rfl | ⟨value, hbind⟩
    · exact ⟨trivial, .null, rfl⟩
    · have hvalue := hall value hbind
      rcases bind_cases hbind with ⟨-, rfl, -⟩ | ⟨-, hencoded, hblob⟩ | ⟨-, -, hscalar⟩
      · exact ⟨trivial, .null, rfl⟩
      · exact ⟨Admits.readable (Or.inr ⟨value, hbind⟩) hencoded, _,
          (load_blob_iff hencoded hblob).2 ⟨hvalue, rfl⟩⟩
      · have hfound := scalar?_of_bindScalar hscalar
        exact ⟨(readable_of_scalar? hfound).2 hvalue, stored,
          column.load_of_not_bytes (scalar?_cases hfound).2⟩

/-- A key is bound to itself. -/
theorem bind_key (hkind : column.kind = .integer) (table : String) (id : Int64) :
    column.bind table (.integer id) = .ok (.integer id) := by
  unfold bind bindScalar
  rw [hkind]
  rfl

theorem admits_key (hkind : column.kind = .integer) (table : String) (id : Int64) :
    column.Admits table (.integer id) :=
  Or.inr ⟨.integer id, bind_key hkind table id⟩

end Column

end RecordStore
