import RecordStore.Proofs.Model.Reloading

/-!
# What passes the write boundary

A value is checked and converted by `Column.bind` when it is written, and `Column.load` makes a value
of its stored form when it is read.  Only an integer in a column of floating-point numbers or decimals
is converted for good (`StorageKind.Widens`); everything else comes back as it was, unless it is encoded
with a time of day that cannot be read.

The main statement is `bound_is_loaded_back`.  A stored form tells by its shape how it is loaded: byte
strings are blobs in the columns that encode what they hold, and the other columns hold none.
-/

namespace RecordStore

namespace Column

variable {column : Column} {table : String} {value wider stored : Value}

/-- An integer is stored as the number that it widens to, which is stored as itself. -/
theorem bind_of_widens (h : column.kind.Widens value wider) (table : String) :
    column.bind table value = .ok wider ∧ column.bind table wider = .ok wider := by
  generalize hkind : column.kind = kind at h
  cases h with
  | float n =>
      unfold bind bindScalar
      rw [hkind]
      exact ⟨rfl, rfl⟩
  | numeric n =>
      unfold bind bindScalar
      rw [hkind]
      exact ⟨rfl, rfl⟩

theorem load_of_widens (h : column.kind.Widens value wider) : column.load wider = .ok wider := by
  refine column.load_of_not_bytes ?_
  generalize column.kind = kind at h
  rintro bytes rfl
  cases h

theorem not_encoded_of_widens (h : column.kind.Widens value wider) {holds : Prop} :
    column.kind.isEncoded = true → holds := by
  intro hencoded
  generalize column.kind = kind at h hencoded
  cases h <;> cases hencoded

theorem containerKind?_of_bind {kind : ContainerKind} (hkind : column.kind = .container kind)
    (h : column.bind table value = .ok stored) : value.containerKind? = some kind := by
  unfold bind at h
  simp only [hkind] at h
  by_contra hother
  rw [if_neg hother] at h
  cases h

end Column

/-- Every value that a column accepts is loaded again from its stored form, unless the column encodes what
it holds and a time of day in the value cannot be read: an integer as the number that it widens to where the
column keeps floating-point numbers or decimals, and anything else as exactly the same value, which in a
column of containers is a container of the kind of the column.  What is loaded is stored in the same form
again.  The mappings of a value are kept in key order. -/
theorem bound_is_loaded_back (column : Column) (table : String) (value stored : Value)
    (hordered : value.KeyOrdered) (h : column.bind table value = .ok stored) :
    ((∃ loaded, column.load stored = .ok loaded) ↔ (column.kind.isEncoded = true → value.Readable)) ∧
    ∀ loaded, column.load stored = .ok loaded →
      (∀ wider, column.kind.Widens value wider → loaded = wider) ∧
      ((∀ wider, ¬column.kind.Widens value wider) → loaded = value) ∧
      column.bind table loaded = .ok stored ∧
      ∀ kind, column.kind = .container kind → loaded.containerKind? = some kind := by
  by_cases hwidens : ∃ wider, column.kind.Widens value wider
  · obtain ⟨wider, hwider⟩ := hwidens
    obtain ⟨hbind, hagain⟩ := Column.bind_of_widens hwider table
    obtain rfl : wider = stored := Except.ok.inj (hbind.symm.trans h)
    have hload := Column.load_of_widens hwider
    refine ⟨⟨fun _ => Column.not_encoded_of_widens hwider, fun _ => ⟨wider, hload⟩⟩, ?_⟩
    intro loaded hloaded
    obtain rfl : wider = loaded := Except.ok.inj (hload.symm.trans hloaded)
    refine ⟨?_, ?_, hagain, ?_⟩
    · intro other hother
      exact Except.ok.inj (hbind.symm.trans (Column.bind_of_widens hother table).1)
    · intro hnone
      exact absurd hwider (hnone wider)
    · intro kind hkind
      rw [hkind] at hwider
      cases hwider
  · -- Nothing else is converted, so the stored form stands for what was bound.
    obtain ⟨content, hreloads, rfl | hwider⟩ := Column.reloads_of_bind h hordered
    · refine ⟨⟨fun ⟨loaded, hload⟩ => ((hreloads loaded).1 hload).1,
        fun hreadable => ⟨content, hreloads.load_eq hreadable⟩⟩, ?_⟩
      intro loaded hload
      obtain rfl := hreloads.of_load hload
      refine ⟨?_, fun _ => rfl, h, fun kind hkind => Column.containerKind?_of_bind hkind h⟩
      intro wider hwider
      exact absurd ⟨wider, hwider⟩ hwidens
    · exact absurd ⟨content, hwider⟩ hwidens

/-- An integer becomes a decimal, and a set that holds a mapping and the same member twice stays what it
is; a list with a leap second that is not at the end of a minute is stored but not loaded. -/
theorem bound_is_loaded_back_widened :
    let price : Column := { name := "price", field := "price", kind := .numeric }
    let tags : Column := { name := "tags", field := "tags", kind := .container .set, nullable := false }
    let times : Column := { name := "times", field := "times", kind := .container .list }
    let value : Value := .set [.null, .mapping [("a", .boolean true), ("b", .null)], .null]
    let stored : Value := .bytes [13, 3, 0, 0, 0, 0, 11, 2, 0, 0, 0, 1, 0, 97, 3, 1, 1, 0, 98, 0, 0]
    let leap : Value := .list [.time .strayLeap]
    let blob : Value := .bytes [10, 1, 0, 0, 0, 9, 148, 80, 1, 0, 85, 13, 121, 79]
    value.KeyOrdered ∧ leap.KeyOrdered ∧
      price.bind "items" (.integer (-3)) = .ok (.decimal (.ofInt64 (-3))) ∧
      tags.bind "items" value = .ok stored ∧ times.bind "items" leap = .ok blob ∧
      price.load (.decimal (.ofInt64 (-3))) = .ok (.decimal (.ofInt64 (-3))) ∧
      tags.load stored = .ok value ∧ ¬∃ loaded, times.load blob = .ok loaded := by
  intro price tags times value stored leap blob
  have hordered : value.KeyOrdered := by
    refine ⟨trivial, ⟨List.Pairwise.cons (by decide) (List.pairwise_singleton _ _), ?_⟩, trivial, trivial⟩
    simp [Value.EntriesKeyOrdered, Value.KeyOrdered]
  have hleap : leap.KeyOrdered := by
    simp [leap, Value.KeyOrdered, Value.ItemsKeyOrdered]
  have hprice : price.bind "items" (.integer (-3)) = .ok (.decimal (.ofInt64 (-3))) := rfl
  have htags : tags.bind "items" value = .ok stored := by
    rfl
  have htimes : times.bind "items" leap = .ok blob := by
    rfl
  obtain ⟨hdear, hnumber⟩ := bound_is_loaded_back price "items" (.integer (-3)) _ trivial hprice
  obtain ⟨hsame, hvalue⟩ := bound_is_loaded_back tags "items" value stored hordered htags
  obtain ⟨hlost, -⟩ := bound_is_loaded_back times "items" leap blob hleap htimes
  obtain ⟨dear, hdear⟩ := hdear.2 fun hencoded => by cases hencoded
  obtain ⟨same, hsame⟩ := hsame.2 fun _ => by
    simp [value, Value.Readable, Value.ItemsReadable, Value.EntriesReadable]
  have hwider := (hnumber dear hdear).1 _ (.numeric (-3))
  have hkept := (hvalue same hsame).2.1 fun wider hwider => by cases hwider
  rw [hwider] at hdear
  rw [hkept] at hsame
  refine ⟨hordered, hleap, hprice, htags, htimes, hdear, hsame, ?_⟩
  rw [hlost]
  simp [times, leap, StorageKind.isEncoded, Value.Readable, Value.ItemsReadable,
    TimeOfDay.not_readable_strayLeap]

/-- Not everything that a column of blobs accepts is loaded again: a time of day four seconds into its minute
may be held with more nanoseconds than a second has, but is not read with them. -/
theorem bound_time_is_not_loaded :
    ¬∀ (column : Column) (table : String) (value stored : Value), value.KeyOrdered →
      column.bind table value = .ok stored → ∃ loaded, column.load stored = .ok loaded := by
  intro h
  let column : Column := { name := "data", field := "data", kind := .opaqueBlob }
  obtain ⟨loaded, hload⟩ := h column "items" (.time .strayLeap)
    (.bytes [9, 148, 80, 1, 0, 85, 13, 121, 79]) trivial rfl
  cases hload

end RecordStore
