import RecordStore.Proofs.Codec.RoundTrip

/-!
# Reading one column

A single column of a row is read by passing over the columns before it.  On a row that was encoded
this gives the same value as reading the whole row (`getColumn_encodeRow`).
-/

namespace RecordStore

open Reader

namespace Reader

/-- What a reader does after another one has taken its bytes. -/
theorem Takes.then_run {α β : Type} {read : Reader α} {front : Bytes} {a : α}
    (h : Takes read front a) (next : α → Reader β) (rest : Bytes) :
    (read >>= next) (front ++ rest) = next a rest := by
  have hstep : (read >>= next) (front ++ rest) =
      read (front ++ rest) >>= fun result => next result.1 result.2 := rfl
  rw [hstep, h rest]
  rfl

end Reader

section Columns

variable {entries columns : List (String × Value)} {bytes data : Bytes} (target : String)

/-- The value of the first of the encoded columns that has the name is read, wherever the reader
stops afterwards. -/
theorem column_append (depth : Nat) (h : Value.encodeEntries entries = .ok data)
    (hdepth : data.length ≤ depth)
    (hreadable : ∀ entry, (entries.find? fun entry => entry.1 == target) = some entry → entry.2.Readable)
    (rest : Bytes) :
    ∃ left, Reader.column target depth entries.length (data ++ rest) =
      .ok ((entries.find? fun entry => entry.1 == target).map (·.2.keyOrder), left) := by
  induction entries generalizing data with
  | nil => exact ⟨data ++ rest, rfl⟩
  | cons entry others ih =>
      obtain ⟨k, x⟩ := entry
      obtain ⟨first, later, hk, hfirst, hlater, rfl⟩ := of_encodeEntries_cons h
      simp only [List.length_append] at hdepth
      have hbytes : littleEndian 2 (textBytes k).length ++ textBytes k ++ (first ++ later) ++ rest =
          littleEndian 2 (textBytes k).length ++ textBytes k ++ (first ++ (later ++ rest)) := by
        simp only [List.append_assoc]
      rw [hbytes, List.length_cons]
      unfold Reader.column
      rw [(Takes.name hk).then_run]
      by_cases htarget : k = target
      · rw [List.find?_cons_of_pos (by simpa using htarget)] at hreadable ⊢
        have hvalue := takes_value depth x (hreadable (k, x) rfl) hfirst (by omega)
        rw [if_pos htarget, hvalue.then_run]
        exact ⟨later ++ rest, rfl⟩
      · rw [List.find?_cons_of_neg (by simpa using htarget)] at hreadable ⊢
        have hskip := takes_skipValue depth x hfirst (by omega)
        rw [if_neg htarget, hskip.then_run]
        exact ih hlater (by omega) hreadable

/-- Where the value of that column cannot be read, neither is the column. -/
theorem column_of_unreadable (depth : Nat) (h : Value.encodeEntries entries = .ok data)
    (hdepth : data.length ≤ depth) {entry : String × Value}
    (hentry : (entries.find? fun entry => entry.1 == target) = some entry) (hvalue : ¬entry.2.Readable)
    (rest : Bytes) :
    ∃ fault, Reader.column target depth entries.length (data ++ rest) = .error fault := by
  induction entries generalizing data with
  | nil => cases hentry
  | cons head others ih =>
      obtain ⟨k, x⟩ := head
      obtain ⟨first, later, hk, hfirst, hlater, rfl⟩ := of_encodeEntries_cons h
      simp only [List.length_append] at hdepth
      have hbytes : littleEndian 2 (textBytes k).length ++ textBytes k ++ (first ++ later) ++ rest =
          littleEndian 2 (textBytes k).length ++ textBytes k ++ (first ++ (later ++ rest)) := by
        simp only [List.append_assoc]
      rw [hbytes, List.length_cons]
      unfold Reader.column
      rw [(Takes.name hk).then_run]
      by_cases htarget : k = target
      · rw [List.find?_cons_of_pos (by simpa using htarget)] at hentry
        cases hentry
        obtain ⟨fault, hfault⟩ := rejects_value depth x hvalue hfirst (by omega)
        rw [if_pos htarget]
        exact ⟨fault, bind_eq_error.2 (Or.inl (hfault _))⟩
      · rw [List.find?_cons_of_neg (by simpa using htarget)] at hentry
        have hskip := takes_skipValue depth x hfirst (by omega)
        rw [if_neg htarget, hskip.then_run]
        exact ih hlater (by omega) hentry

variable (hcount : columns.length < 4294967296) (h : encodeRow columns = .ok bytes)

include hcount h

/-- A column of an encoded row is read as what was written under its name first. -/
theorem getColumn_encodeRow
    (hreadable : ∀ entry, (columns.find? fun entry => entry.1 == target) = some entry → entry.2.Readable) :
    getColumn bytes target =
      .ok ((columns.find? fun entry => entry.1 == target).map (·.2.keyOrder)) := by
  obtain ⟨data, hdata, h⟩ := bind_eq_ok.1 h
  obtain rfl := pure_eq_ok.1 h
  have hbound : data.length ≤ (littleEndian 4 columns.length ++ data).length + 1 := by
    simp only [List.length_append]
    omega
  obtain ⟨left, hcolumn⟩ := column_append target _ hdata hbound hreadable []
  rw [List.append_nil] at hcolumn
  exact bind_eq_ok.2 ⟨(columns.length, data), Takes.size .columnCount hcount data,
    bind_eq_ok.2 ⟨(_, left), hcolumn, rfl⟩⟩

theorem getColumn_of_unreadable {entry : String × Value}
    (hentry : (columns.find? fun entry => entry.1 == target) = some entry) (hvalue : ¬entry.2.Readable) :
    ∃ fault, getColumn bytes target = .error fault := by
  obtain ⟨data, hdata, h⟩ := bind_eq_ok.1 h
  obtain rfl := pure_eq_ok.1 h
  have hbound : data.length ≤ (littleEndian 4 columns.length ++ data).length + 1 := by
    simp only [List.length_append]
    omega
  obtain ⟨fault, hcolumn⟩ := column_of_unreadable target _ hdata hbound hentry hvalue []
  rw [List.append_nil] at hcolumn
  exact ⟨fault, bind_eq_error.2 (Or.inr ⟨(columns.length, data), Takes.size .columnCount hcount data,
    bind_eq_error.2 (Or.inl hcolumn)⟩)⟩

/-- A column of an encoded row is read exactly if its value can be. -/
theorem getColumn_encodeRow_iff {found : Option Value} :
    getColumn bytes target = .ok found ↔
      found = (columns.find? fun entry => entry.1 == target).map (·.2.keyOrder) ∧
      ∀ entry, (columns.find? fun entry => entry.1 == target) = some entry → entry.2.Readable := by
  constructor
  · intro hfound
    have hreadable : ∀ entry, (columns.find? fun entry => entry.1 == target) = some entry →
        entry.2.Readable := by
      intro entry hentry
      by_contra hvalue
      obtain ⟨fault, hfault⟩ := getColumn_of_unreadable target hcount h hentry hvalue
      rw [hfound] at hfault
      cases hfault
    rw [getColumn_encodeRow target hcount h hreadable] at hfound
    exact ⟨(Except.ok.inj hfound).symm, hreadable⟩
  · rintro ⟨rfl, hreadable⟩
    exact getColumn_encodeRow target hcount h hreadable

end Columns

end RecordStore
