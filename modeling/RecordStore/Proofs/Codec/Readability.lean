import RecordStore.Value.Basic

/-!
# Values that can be read back

A time of day is held with any number of nanoseconds below `2 * 10 ^ 9`, and encoded as it is.  Reading
makes times of their parts, which takes leap seconds in the last second of a minute alone.  So a value can
be read back where all times in it, at every depth, are made again of their parts (`Value.Readable`).
-/

namespace RecordStore

namespace Value

mutual

/-- All times of day in the value, at every depth, are made again of their parts. -/
def Readable : Value → Prop
  | dateTime t => t.time.Readable
  | time t => t.Readable
  | list items => ItemsReadable items
  | mapping entries => EntriesReadable entries
  | tuple items => ItemsReadable items
  | set members => ItemsReadable members
  | frozenSet members => ItemsReadable members
  | _ => True
termination_by structural value => value

/-- All times of day in the items of a container are made again of their parts. -/
def ItemsReadable : List Value → Prop
  | [] => True
  | x :: xs => Readable x ∧ ItemsReadable xs
termination_by structural items => items

/-- All times of day in the entries of a mapping are made again of their parts. -/
def EntriesReadable : List (String × Value) → Prop
  | [] => True
  | (_, x) :: xs => Readable x ∧ EntriesReadable xs
termination_by structural entries => entries

end

theorem itemsReadable_iff {items : List Value} :
    ItemsReadable items ↔ ∀ item ∈ items, item.Readable := by
  induction items with
  | nil => simp [ItemsReadable]
  | cons x xs ih => simp [ItemsReadable, ih]

theorem entriesReadable_iff {entries : List (String × Value)} :
    EntriesReadable entries ↔ ∀ entry ∈ entries, entry.2.Readable := by
  induction entries with
  | nil => simp [EntriesReadable]
  | cons entry xs ih =>
      obtain ⟨k, x⟩ := entry
      simp [EntriesReadable, ih]

end Value

/-! ## Times made of their parts -/

namespace TimeOfDay

/-- A time is made again of its parts exactly if it is readable. -/
theorem ofParts?_eq (t : TimeOfDay) :
    ofParts? t.seconds t.nanos = if t.Readable then some t else none := by
  unfold ofParts?
  rw [dif_pos ⟨t.seconds_lt, t.nanos_lt⟩]

/-- A leap second four seconds into a minute, which is held but not made of its parts. -/
def strayLeap : TimeOfDay where
  seconds := 86164
  nanos := 1333333333

theorem not_readable_strayLeap : ¬strayLeap.Readable := by
  decide

/-- What is made of parts is readable. -/
theorem readable_of_ofParts? {seconds nanos : Nat} {t : TimeOfDay}
    (h : ofParts? seconds nanos = some t) : t.Readable := by
  unfold ofParts? at h
  split at h
  · simp only [] at h
    split at h
    · cases h
      assumption
    · cases h
  · cases h

end TimeOfDay

namespace DateTime

/-- A date with time is made again of its seconds since 1970 and its nanoseconds exactly if its time of
day is readable. -/
theorem ofUnix?_eq (t : DateTime) :
    ofUnix? t.unixSeconds t.time.nanos = if t.time.Readable then some t else none := by
  have hlt := t.time.seconds_lt
  have hday : t.unixSeconds / 86400 + epochDay = t.date.day := by
    unfold unixSeconds
    omega
  have hseconds : (t.unixSeconds % 86400).toNat = t.time.seconds := by
    unfold unixSeconds
    omega
  have hdate : Date.ofDay? t.date.day = some t.date := by
    simp [Date.ofDay?, t.date.day_ge, t.date.day_le]
  unfold ofUnix?
  rw [hday, hseconds, hdate, TimeOfDay.ofParts?_eq]
  by_cases hreadable : t.time.Readable
  · rw [if_pos hreadable, if_pos hreadable]
  · rw [if_neg hreadable, if_neg hreadable]

theorem readable_of_ofUnix? {seconds : Int} {nanos : Nat} {t : DateTime}
    (h : ofUnix? seconds nanos = some t) : t.time.Readable := by
  unfold ofUnix? at h
  split at h
  · rename_i htime
    cases h
    exact TimeOfDay.readable_of_ofParts? htime
  · cases h

end DateTime

end RecordStore
