import RecordStore.Proofs.Codec.RoundTrip
import RecordStore.Proofs.Codec.Skipping

/-!
# Data that are cut off or continued

What a reader answers depends on the bytes that it takes, not on what stands behind them:
`Reader.Persists` says that an answer, be it a result or a fault, stays the same when more data
follow, unless the fault is that the data ran out.  The relation follows the way readers are put
together, and it holds of the reader of values at every depth.

So an encoding is not the front of another one.  The main statement is `encodings_are_delimited`:
whatever is cut off from an encoding is missed, wherever the cut falls, and whatever is added is
noticed.  Where a time in the encoded value cannot be read, that may be noticed first.
-/

namespace RecordStore

/-- The data end before what is read from them does. -/
def DataFault.RunsOut : DataFault → Prop
  | emptyValue | unexpectedEnd | tooShort _ => True
  | _ => False

namespace Reader

variable {α β : Type}

theorem bind_eq_error_iff {read : Reader α} {next : α → Reader β} {data : Bytes}
    {fault : DataFault} :
    (read >>= next) data = .error fault ↔
      read data = .error fault ∨ ∃ a mid, read data = .ok (a, mid) ∧ next a mid = .error fault := by
  have hrun : (read >>= next) data = read data >>= fun result => next result.1 result.2 := rfl
  rw [hrun, bind_eq_error, Prod.exists]

/-- What the first reader answers, the second one answers too when more data follow.  Only where the
data ran out it may find more. -/
structure Persists (read read' : Reader α) : Prop where
  ok : ∀ {data rest : Bytes} {a : α}, read data = .ok (a, rest) →
    ∀ more, read' (data ++ more) = .ok (a, rest ++ more)
  error : ∀ {data : Bytes} {fault : DataFault}, read data = .error fault → ¬fault.RunsOut →
    ∀ more, read' (data ++ more) = .error fault

namespace Persists

/-! ## Putting readers together -/

theorem pure (a : α) : Persists (Pure.pure a) (Pure.pure a) where
  ok h more := by
    cases h
    rfl
  error h _ more := by cases h

theorem fail (fault : DataFault) : Persists (Reader.fail (α := α) fault) (Reader.fail fault) where
  ok h more := by cases h
  error h _ more := h

/-- Where data have run out, anything may follow. -/
theorem ranOut (fault : DataFault) (hfault : fault.RunsOut) (read' : Reader α) :
    Persists (Reader.fail fault) read' where
  ok h more := by cases h
  error h hother more := by
    cases h
    exact absurd hfault hother

theorem bind {read read' : Reader α} {next next' : α → Reader β} (hread : Persists read read')
    (hnext : ∀ a, Persists (next a) (next' a)) : Persists (read >>= next) (read' >>= next') where
  ok h more := by
    obtain ⟨a, mid, hfirst, hlast⟩ := bind_eq_ok_iff.1 h
    exact bind_eq_ok_iff.2 ⟨a, mid ++ more, hread.ok hfirst more, (hnext a).ok hlast more⟩
  error h hfault more := by
    rcases bind_eq_error_iff.1 h with hfirst | ⟨a, mid, hfirst, hlast⟩
    · exact bind_eq_error_iff.2 (Or.inl (hread.error hfirst hfault more))
    · exact bind_eq_error_iff.2 (Or.inr
        ⟨a, mid ++ more, hread.ok hfirst more, (hnext a).error hlast hfault more⟩)

theorem map {read read' : Reader α} (f : α → β) (h : Persists read read') :
    Persists (read >>= fun a => Pure.pure (f a)) (read' >>= fun a => Pure.pure (f a)) :=
  h.bind fun a => pure (f a)

theorem many {read read' : Reader α} (h : Persists read read') (count : Nat) :
    Persists (Reader.many read count) (Reader.many read' count) := by
  induction count with
  | zero => exact pure []
  | succ count ih => exact h.bind fun first => ih.map fun rest => first :: rest

/-! ## Bytes, numbers and texts -/

theorem bytes (count : Nat) (fault : DataFault) (hfault : fault.RunsOut) :
    Persists (Reader.bytes count fault) (Reader.bytes count fault) where
  ok {data rest front} h more := by
    by_cases hcount : count ≤ data.length
    · simp only [Reader.bytes, splitFront?_eq, if_pos hcount] at h
      cases h
      have hlonger : count ≤ (data ++ more).length := by
        rw [List.length_append]
        omega
      simp only [Reader.bytes, splitFront?_eq, if_pos hlonger]
      rw [List.take_append_of_le_length hcount, List.drop_append_of_le_length hcount]
    · simp only [Reader.bytes, splitFront?_eq, if_neg hcount] at h
      cases h
  error {data other} h hother more := by
    by_cases hcount : count ≤ data.length
    · simp only [Reader.bytes, splitFront?_eq, if_pos hcount] at h
      cases h
    · simp only [Reader.bytes, splitFront?_eq, if_neg hcount] at h
      cases h
      exact absurd hfault hother

theorem number (width : Nat) : Persists (Reader.number width) (Reader.number width) :=
  (bytes width .unexpectedEnd trivial).map ofLittleEndian

theorem size (part : DataPart) : Persists (Reader.size part) (Reader.size part) :=
  (bytes 4 (.tooShort part) trivial).map ofLittleEndian

theorem tag : Persists Reader.tag Reader.tag where
  ok {data rest t} h more := by
    cases data with
    | nil => cases h
    | cons byte data =>
        simp only [Reader.tag, List.cons_append] at h ⊢
        cases hbyte : Tag.ofByte? byte with
        | none =>
            rw [hbyte] at h
            cases h
        | some found =>
            rw [hbyte] at h
            cases h
            rfl
  error {data fault} h hfault more := by
    cases data with
    | nil =>
        cases h
        exact absurd trivial hfault
    | cons byte data =>
        simp only [Reader.tag, List.cons_append] at h ⊢
        cases hbyte : Tag.ofByte? byte with
        | none =>
            rw [hbyte] at h
            exact h
        | some found =>
            rw [hbyte] at h
            cases h

/-- The bytes of a text, which may turn out not to be one. -/
theorem decoded (length : Nat) (fault : DataFault) :
    Persists (do
      let front ← Reader.bytes length
      match bytesText? front with
      | some text => return text
      | none => Reader.fail fault) (do
      let front ← Reader.bytes length
      match bytesText? front with
      | some text => return text
      | none => Reader.fail fault) := by
  refine (bytes length .unexpectedEnd trivial).bind fun front => ?_
  cases bytesText? front with
  | none => exact fail fault
  | some text => exact pure text

theorem name : Persists Reader.name Reader.name :=
  (number 2).bind fun length => decoded length .malformedName

theorem text : Persists Reader.text Reader.text :=
  (size .textLength).bind fun length => decoded length .malformedText

theorem blob : Persists Reader.blob Reader.blob :=
  (size .bytesLength).bind fun length => bytes length .unexpectedEnd trivial

/-! ## Scalars -/

theorem int64 : Persists Reader.int64 Reader.int64 :=
  (number 8).map _

theorem decimal : Persists Reader.decimal Reader.decimal :=
  (number 4).bind fun _ => (number 12).map _

theorem date : Persists Reader.date Reader.date := by
  refine (number 4).bind fun n => ?_
  dsimp only
  cases Date.ofDay? (UInt32.ofNat n).toInt32.toInt with
  | none => exact fail _
  | some date => exact pure date

theorem dateTime : Persists Reader.dateTime Reader.dateTime := by
  refine int64.bind fun seconds => (number 4).bind fun nanos => ?_
  cases DateTime.ofUnix? seconds.toInt nanos with
  | none => exact fail _
  | some t => exact pure t

theorem time : Persists Reader.time Reader.time := by
  refine (number 4).bind fun seconds => (number 4).bind fun nanos => ?_
  cases TimeOfDay.ofParts? seconds nanos with
  | none => exact fail _
  | some t => exact pure t

/-! ## Values -/

/-- The items of a container after their number. -/
theorem items {read read' : Reader α} (part : DataPart) (f : List α → β) (h : Persists read read') :
    Persists (Reader.size part >>= fun count => Reader.many read count >>= fun xs => Pure.pure (f xs))
      (Reader.size part >>= fun count => Reader.many read' count >>= fun xs => Pure.pure (f xs)) :=
  (size part).bind fun count => (h.many count).map f

theorem entry {read read' : Reader α} (h : Persists read read') :
    Persists (do return (← Reader.name, ← read)) (do return (← Reader.name, ← read')) :=
  name.bind fun key => h.map fun a => (key, a)

/-- A bound of the depth that is reached counts as data that ran out, so a larger one gives the same
answer or more. -/
theorem value {depth depth' : Nat} (hdepth : depth ≤ depth') :
    Persists (Reader.value depth) (Reader.value depth') := by
  induction depth generalizing depth' with
  | zero => exact ranOut .unexpectedEnd trivial _
  | succ depth ih =>
      obtain ⟨deeper, rfl⟩ := Nat.exists_eq_add_of_le' (Nat.le_trans (Nat.succ_pos depth) hdepth)
      have item : Persists (Reader.value depth) (Reader.value deeper) :=
        ih (Nat.le_of_succ_le_succ hdepth)
      refine tag.bind fun t => ?_
      cases t with
      | null => exact pure Value.null
      | integer => exact int64.map _
      | float => exact (number 8).map _
      | boolean => exact (number 1).map _
      | text => exact text.map _
      | bytes => exact blob.map _
      | decimal => exact decimal.map _
      | date => exact date.map _
      | dateTime => exact dateTime.map _
      | time => exact time.map _
      | list => exact items _ _ item
      | mapping => exact items _ _ item.entry
      | tuple => exact items _ _ item
      | set => exact items _ _ item
      | frozenSet => exact items _ _ item

theorem row {depth depth' : Nat} (hdepth : depth ≤ depth') :
    Persists (Reader.row depth) (Reader.row depth') :=
  (size .columnCount).bind fun count => (value hdepth).entry.many count

/-! ## Cuts -/

/-- Data that a reader takes to the end are missed where they are cut off. -/
theorem cut {read read' : Reader α} (h : Persists read read') {front bytes : Bytes} {a : α}
    (hwhole : read' bytes = .ok (a, [])) (hfront : front <+: bytes) (hcut : front ≠ bytes) :
    ∃ fault, fault.RunsOut ∧ read front = .error fault := by
  obtain ⟨more, rfl⟩ := hfront
  cases hread : read front with
  | error fault =>
      refine ⟨fault, ?_, rfl⟩
      -- Any other fault would be found in the whole as well.
      by_contra hfault
      have hagain := h.error hread hfault more
      rw [hwhole] at hagain
      cases hagain
  | ok result =>
      -- What was left over at the cut is left over from the whole as well.
      obtain ⟨b, rest⟩ := result
      have hagain := h.ok hread more
      rw [hwhole, Except.ok.injEq, Prod.mk.injEq] at hagain
      obtain ⟨-, rfl⟩ := List.append_eq_nil_iff.1 hagain.2.symm
      exact absurd (List.append_nil front).symm hcut

/-- Data that a reader fails on may be cut off or not. -/
theorem failsOnCut {read read' : Reader α} (h : Persists read read') {front bytes : Bytes}
    {fault : DataFault} (hwhole : read' bytes = .error fault) (hfront : front <+: bytes) :
    ∃ fault, read front = .error fault := by
  obtain ⟨more, rfl⟩ := hfront
  cases hread : read front with
  | error other => exact ⟨other, rfl⟩
  | ok result =>
      have hagain := h.ok hread more
      rw [hwhole] at hagain
      cases hagain

end Persists

end Reader

/-! ## Whole byte strings -/

section Whole

variable {front rest bytes : Bytes} {v : Value} {columns : List (String × Value)}

theorem decode_of_cut (hv : v.Readable) (h : v.encode = .ok bytes) (hfront : front <+: bytes)
    (hcut : front ≠ bytes) : ∃ fault, fault.RunsOut ∧ decode front = .error fault := by
  have hdepth : front.length + 1 ≤ bytes.length + 1 := Nat.succ_le_succ hfront.length_le
  have hwhole : decodeFront bytes = .ok (v.keyOrder, []) := by
    have hread := decodeFront_append hv h []
    rwa [List.append_nil] at hread
  obtain ⟨fault, hfault, hread⟩ := (Reader.Persists.value hdepth).cut hwhole hfront hcut
  exact ⟨fault, hfault, bind_eq_error.2 (Or.inl hread)⟩

theorem decode_of_unreadable_cut (hv : ¬v.Readable) (h : v.encode = .ok bytes) (hfront : front <+: bytes) :
    ∃ fault, decode front = .error fault := by
  have hdepth : front.length + 1 ≤ bytes.length + 1 := Nat.succ_le_succ hfront.length_le
  obtain ⟨fault, hwhole⟩ := decodeFront_of_unreadable hv h []
  rw [List.append_nil] at hwhole
  obtain ⟨other, hread⟩ := (Reader.Persists.value hdepth).failsOnCut hwhole hfront
  exact ⟨other, bind_eq_error.2 (Or.inl hread)⟩

/-- The fault of what follows a value says how many bytes there are. -/
theorem decode_of_continued (hv : v.Readable) (h : v.encode = .ok bytes) (hrest : rest ≠ []) :
    decode (bytes ++ rest) = .error (.trailing rest.length) := by
  refine bind_eq_error.2 (Or.inr ⟨(v.keyOrder, rest), decodeFront_append hv h rest, ?_⟩)
  exact if_neg fun hnone => hrest (List.length_eq_zero_iff.1 hnone)

theorem decodeRow_of_cut (hcount : columns.length < 4294967296) (h : encodeRow columns = .ok bytes)
    (hfront : front <+: bytes) (hcut : front ≠ bytes) (hcolumns : ∀ column ∈ columns, column.2.Readable) :
    ∃ fault, fault.RunsOut ∧ decodeRow front = .error fault := by
  have hdepth : front.length + 1 ≤ bytes.length + 1 := Nat.succ_le_succ hfront.length_le
  have hwhole : Reader.row (bytes.length + 1) bytes = .ok (Value.entriesKeyOrder columns, []) := by
    have hread := row_append hcount h [] hcolumns
    rwa [List.append_nil] at hread
  obtain ⟨fault, hfault, hread⟩ := (Reader.Persists.row hdepth).cut hwhole hfront hcut
  exact ⟨fault, hfault, bind_eq_error.2 (Or.inl hread)⟩

theorem decodeRow_of_unreadable_cut (hcount : columns.length < 4294967296)
    (h : encodeRow columns = .ok bytes) (hfront : front <+: bytes)
    (hcolumns : ¬∀ column ∈ columns, column.2.Readable) : ∃ fault, decodeRow front = .error fault := by
  have hdepth : front.length + 1 ≤ bytes.length + 1 := Nat.succ_le_succ hfront.length_le
  obtain ⟨fault, hwhole⟩ := row_of_unreadable hcount h [] hcolumns
  rw [List.append_nil] at hwhole
  obtain ⟨other, hread⟩ := (Reader.Persists.row hdepth).failsOnCut hwhole hfront
  exact ⟨other, bind_eq_error.2 (Or.inl hread)⟩

end Whole

/-- An encoding is its own end: where anything is cut off from an encoded value, be it all of it, or
anything is added to it, decoding fails, and so does decoding a row that is cut off.  If all times of day
in what was encoded can be read, it finds that the data ran out where something is cut off, and is told how
much it is where something is added. -/
theorem encodings_are_delimited :
    (∀ (v : Value) (bytes : Bytes), v.encode = .ok bytes →
      (∀ front, front <+: bytes → front ≠ bytes →
        ∃ fault, decode front = .error fault ∧ (v.Readable → fault.RunsOut)) ∧
      (∀ rest, rest ≠ [] →
        ∃ fault, decode (bytes ++ rest) = .error fault ∧
          (v.Readable → fault = .trailing rest.length))) ∧
    (∀ columns : List (String × Value), columns.length < 4294967296 →
      ∀ bytes : Bytes, encodeRow columns = .ok bytes → ∀ front, front <+: bytes → front ≠ bytes →
        ∃ fault, decodeRow front = .error fault ∧
          ((∀ column ∈ columns, column.2.Readable) → fault.RunsOut)) := by
  refine ⟨?_, ?_⟩
  · intro v bytes h
    by_cases hv : v.Readable
    · refine ⟨?_, fun rest hrest => ⟨_, decode_of_continued hv h hrest, fun _ => rfl⟩⟩
      intro front hfront hcut
      obtain ⟨fault, hfault, hread⟩ := decode_of_cut hv h hfront hcut
      exact ⟨fault, hread, fun _ => hfault⟩
    · refine ⟨?_, ?_⟩
      · intro front hfront _
        obtain ⟨fault, hread⟩ := decode_of_unreadable_cut hv h hfront
        exact ⟨fault, hread, fun hreadable => absurd hreadable hv⟩
      · intro rest _
        obtain ⟨fault, hread⟩ := decode_of_unreadable hv h rest
        exact ⟨fault, hread, fun hreadable => absurd hreadable hv⟩
  · intro columns hcount bytes h front hfront hcut
    by_cases hcolumns : ∀ column ∈ columns, column.2.Readable
    · obtain ⟨fault, hfault, hread⟩ := decodeRow_of_cut hcount h hfront hcut hcolumns
      exact ⟨fault, hread, fun _ => hfault⟩
    · obtain ⟨fault, hread⟩ := decodeRow_of_unreadable_cut hcount h hfront hcolumns
      exact ⟨fault, hread, fun hreadable => absurd hreadable hcolumns⟩

/-- A cut through a character of a nested key, a cut that leaves nothing, one more byte, which could be
a value itself, and a row that is cut off behind the number of its columns. -/
theorem encodings_are_delimited_nested :
    let v : Value := .list [.null, .mapping [("é", .boolean true)]]
    let bytes : Bytes := [10, 2, 0, 0, 0, 0, 11, 1, 0, 0, 0, 2, 0, 195, 169, 3, 1]
    let columns : List (String × Value) := [("c", .bytes [0])]
    let row : Bytes := [1, 0, 0, 0, 1, 0, 99, 5, 1, 0, 0, 0, 0]
    v.encode = .ok bytes ∧ encodeRow columns = .ok row ∧
      (∃ fault, fault.RunsOut ∧ decode (bytes.take 14) = .error fault) ∧
      (∃ fault, fault.RunsOut ∧ decode [] = .error fault) ∧
      decode (bytes ++ [0]) = .error (.trailing 1) ∧
      (∃ fault, fault.RunsOut ∧ decodeRow (row.take 4) = .error fault) := by
  intro v bytes columns row
  have hencode : v.encode = .ok bytes := rfl
  have hrow : encodeRow columns = .ok row := by
    show encodeRow [("c", .bytes [0])] = .ok row
    rfl
  have hreadable : v.Readable := by
    simp [v, Value.Readable, Value.EntriesReadable, Value.ItemsReadable]
  have htimes : ∀ column ∈ columns, column.2.Readable := by
    simp [columns, Value.Readable]
  obtain ⟨hcuts, hmore⟩ := encodings_are_delimited.1 v bytes hencode
  obtain ⟨fault, hcut, hout⟩ := hcuts _ (List.take_prefix 14 bytes) (by decide)
  obtain ⟨fault', hcut', hout'⟩ := hcuts [] List.nil_prefix (by decide)
  obtain ⟨trailing, hadded, htrailing⟩ := hmore [0] (by decide)
  obtain rfl := htrailing hreadable
  obtain ⟨fault'', hcut'', hout''⟩ := encodings_are_delimited.2 columns (by decide) row hrow _
    (List.take_prefix 4 row) (by decide)
  exact ⟨hencode, hrow, ⟨fault, hout hreadable, hcut⟩, ⟨fault', hout' hreadable, hcut'⟩, hadded,
    ⟨fault'', hout'' htimes, hcut''⟩⟩

end RecordStore
