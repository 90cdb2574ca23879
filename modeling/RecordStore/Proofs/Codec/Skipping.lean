import RecordStore.Codec.Decoding
import RecordStore.Proofs.Outcome

/-!
# Skipping and decoding

Skipping works out the size of a value for itself.  That it comes to the same size as decoding is
proved by walking through both readers side by side: `Reader.Alongside` says that where one reader
succeeds, the other one succeeds too and stops at the same place.  It follows the way readers are put
together (`Alongside.bind`, `Alongside.many`), and its leaves are the readers that take a fixed number
of bytes (`Reader.Spans`).

The main statement is `skip_agrees_with_decode`: on every byte string, whether an encoder has made it
or not, skipping a value that decodes takes the bytes that decoding takes, and a single column of a
row that decodes is the first one of its name.
-/

namespace RecordStore

namespace Reader

variable {α β α' β' : Type}

/-- A sequence of readers succeeds exactly when the first one does and the next one on the rest. -/
theorem bind_eq_ok_iff {read : Reader α} {next : α → Reader β} {data rest : Bytes} {b : β} :
    (read >>= next) data = .ok (b, rest) ↔
      ∃ a mid, read data = .ok (a, mid) ∧ next a mid = .ok (b, rest) := by
  have hrun : (read >>= next) data = read data >>= fun result => next result.1 result.2 := rfl
  rw [hrun, bind_eq_ok, Prod.exists]

/-! ## Readers of a fixed size -/

/-- A success of the reader takes exactly a number of bytes. -/
def Spans (read : Reader α) (count : Nat) : Prop :=
  ∀ (data rest : Bytes) (a : α), read data = .ok (a, rest) →
    count ≤ data.length ∧ rest = data.drop count

namespace Spans

theorem pure (a : α) : Spans (Pure.pure a) 0 := by
  intro data rest b h
  cases h
  exact ⟨Nat.zero_le _, rfl⟩

theorem fail (fault : DataFault) (count : Nat) : Spans (Reader.fail (α := α) fault) count := by
  intro data rest b h
  cases h

theorem bind {read : Reader α} {next : α → Reader β} {count count' : Nat} (hread : Spans read count)
    (hnext : ∀ a, Spans (next a) count') : Spans (read >>= next) (count + count') := by
  intro data rest b h
  obtain ⟨a, mid, hfirst, hlast⟩ := bind_eq_ok_iff.1 h
  obtain ⟨hcount, rfl⟩ := hread _ _ _ hfirst
  obtain ⟨hcount', rfl⟩ := hnext a _ _ _ hlast
  rw [List.length_drop] at hcount'
  exact ⟨by omega, List.drop_drop⟩

/-- The last reader takes nothing more. -/
theorem bindLast {read : Reader α} {next : α → Reader β} {count : Nat} (hread : Spans read count)
    (hnext : ∀ a, Spans (next a) 0) : Spans (read >>= next) count :=
  hread.bind hnext

/-- What only rearranges takes nothing more. -/
theorem map {read : Reader α} {count : Nat} (f : α → β) (hread : Spans read count) :
    Spans (read >>= fun a => Pure.pure (f a)) count :=
  hread.bindLast fun a => pure (f a)

theorem bytes (count : Nat) (fault : DataFault) : Spans (Reader.bytes count fault) count := by
  intro data rest front h
  by_cases hcount : count ≤ data.length
  · simp only [Reader.bytes, splitFront?_eq, if_pos hcount] at h
    cases h
    exact ⟨hcount, rfl⟩
  · simp only [Reader.bytes, splitFront?_eq, if_neg hcount] at h
    cases h

theorem tag : Spans Reader.tag 1 := by
  intro data rest t h
  cases data with
  | nil => cases h
  | cons byte data =>
      simp only [Reader.tag] at h
      cases hbyte : Tag.ofByte? byte with
      | none =>
          rw [hbyte] at h
          cases h
      | some found =>
          rw [hbyte] at h
          cases h
          exact ⟨Nat.succ_pos _, rfl⟩

theorem number (width : Nat) (fault : DataFault) : Spans (Reader.number width fault) width :=
  (bytes width fault).map ofLittleEndian

theorem int64 : Spans Reader.int64 8 :=
  (number 8 _).map _

theorem decimal : Spans Reader.decimal 16 :=
  (number 4 _).bind fun _ => (number 12 _).map _

theorem date : Spans Reader.date 4 := by
  refine (number 4 _).bindLast fun n => ?_
  dsimp only
  split
  · exact pure _
  · exact fail _ 0

theorem dateTime : Spans Reader.dateTime 12 := by
  refine int64.bind fun seconds => (number 4 _).bindLast fun nanos => ?_
  split
  · exact pure _
  · exact fail _ 0

theorem time : Spans Reader.time 8 := by
  refine (number 4 _).bind fun seconds => (number 4 _).bindLast fun nanos => ?_
  split
  · exact pure _
  · exact fail _ 0

/-- The bytes of a text, which may turn out not to be one. -/
theorem decoded (count : Nat) (fault : DataFault) :
    Spans (do
      let front ← Reader.bytes count
      match bytesText? front with
      | some text => return text
      | none => Reader.fail fault) count := by
  refine (bytes count _).bindLast fun front => ?_
  split
  · exact pure _
  · exact fail fault 0

end Spans

/-! ## Readers side by side -/

/-- Where the first reader succeeds, it takes at least a number of bytes, and the second one succeeds
too, takes the same bytes and gives a related result. -/
def Alongside (least : Nat) (Related : α → β → Prop) (read : Reader α) (pass : Reader β) : Prop :=
  ∀ (data rest : Bytes) (a : α), read data = .ok (a, rest) →
    ∃ front b, data = front ++ rest ∧ least ≤ front.length ∧ pass data = .ok (b, rest) ∧ Related a b

/-- The results of two readers of which the second one passes over what the first one reads. -/
def Passed (_ : α) (_ : Unit) : Prop := True

namespace Alongside

variable {least : Nat}

theorem pure {Related : α → β → Prop} {a : α} {b : β} (h : Related a b) :
    Alongside 0 Related (Pure.pure a) (Pure.pure b) := by
  intro data rest a' hread
  cases hread
  exact ⟨[], b, rfl, Nat.le_refl 0, rfl, h⟩

theorem fail {Related : α → β → Prop} (fault : DataFault) (pass : Reader β) :
    Alongside least Related (Reader.fail fault) pass := by
  intro data rest a hread
  cases hread

theorem bind {Related : α → β → Prop} {Related' : α' → β' → Prop} {read : Reader α}
    {pass : Reader β} {next : α → Reader α'} {next' : β → Reader β'}
    (hread : Alongside least Related read pass)
    (hnext : ∀ a b, Related a b → Alongside 0 Related' (next a) (next' b)) :
    Alongside least Related' (read >>= next) (pass >>= next') := by
  intro data rest a' h
  obtain ⟨a, mid, hfirst, hlast⟩ := bind_eq_ok_iff.1 h
  obtain ⟨front, b, rfl, hleast, hpass, hrelated⟩ := hread _ _ _ hfirst
  obtain ⟨front', b', rfl, -, hpass', hrelated'⟩ := hnext a b hrelated _ _ _ hlast
  refine ⟨front ++ front', b', (List.append_assoc _ _ _).symm, ?_,
    bind_eq_ok_iff.2 ⟨b, _, hpass, hpass'⟩, hrelated'⟩
  rw [List.length_append]
  omega

theorem weaken {Related : α → β → Prop} {read : Reader α} {pass : Reader β}
    (h : Alongside least Related read pass) : Alongside 0 Related read pass := by
  intro data rest a hread
  obtain ⟨front, b, hdata, -, hpass, hrelated⟩ := h _ _ _ hread
  exact ⟨front, b, hdata, Nat.zero_le _, hpass, hrelated⟩

/-- What is made of a value does not matter to what passes over it. -/
theorem map {read : Reader α} {pass : Reader Unit} (f : α → β) (h : Alongside least Passed read pass) :
    Alongside least Passed (read >>= fun a => Pure.pure (f a)) pass := by
  intro data rest b hread
  obtain ⟨a, mid, hfirst, hlast⟩ := bind_eq_ok_iff.1 hread
  cases hlast
  obtain ⟨front, u, hdata, hleast, hpass, -⟩ := h _ _ _ hfirst
  exact ⟨front, u, hdata, hleast, hpass, trivial⟩

theorem many {read : Reader α} {pass : Reader Unit} (h : Alongside 0 Passed read pass) (count : Nat) :
    Alongside 0 Passed (Reader.many read count) (Reader.skipMany pass count) := by
  induction count with
  | zero => exact pure trivial
  | succ count ih => exact h.bind fun a _ _ => ih.map fun rest => a :: rest

/-- A number of bytes may be passed over unread. -/
theorem ofSpans {read : Reader α} {count : Nat} (h : Spans read count) :
    Alongside 0 Passed read (skipBytes count) := by
  intro data rest a hread
  obtain ⟨hcount, rfl⟩ := h _ _ _ hread
  refine ⟨data.take count, (), (List.take_append_drop count data).symm, Nat.zero_le _, ?_, trivial⟩
  simp only [skipBytes, bind_eq_ok_iff, Reader.bytes, splitFront?_eq, if_pos hcount]
  exact ⟨_, _, rfl, rfl⟩

/-! ## The parts of a value -/

theorem tag : Alongside 1 Eq Reader.tag Reader.tag := by
  intro data rest t h
  obtain ⟨hcount, rfl⟩ := Spans.tag _ _ _ h
  refine ⟨data.take 1, t, (List.take_append_drop 1 data).symm, ?_, h, rfl⟩
  rw [List.length_take]
  omega

/-- Only the fault of a size that is cut off depends on what it is the size of. -/
theorem size (part part' : DataPart) : Alongside 0 Eq (Reader.size part) (Reader.size part') := by
  intro data rest n h
  obtain ⟨hcount, rfl⟩ := Spans.number 4 _ _ _ _ h
  refine ⟨data.take 4, n, (List.take_append_drop 4 data).symm, Nat.zero_le _, ?_, rfl⟩
  simp only [Reader.size, Reader.number, bind_eq_ok_iff, Reader.bytes, splitFront?_eq,
    if_pos hcount] at h ⊢
  exact h

theorem name : Alongside 0 Eq Reader.name Reader.name := by
  intro data rest s h
  have hread := h
  obtain ⟨length, mid, hlength, htext⟩ := bind_eq_ok_iff.1 h
  obtain ⟨-, rfl⟩ := Spans.number 2 _ _ _ _ hlength
  obtain ⟨-, rfl⟩ := Spans.decoded length _ _ _ _ htext
  refine ⟨data.take (2 + length), s, ?_, Nat.zero_le _, hread, rfl⟩
  rw [List.drop_drop, List.take_append_drop]

theorem text : Alongside 0 Passed Reader.text (Reader.size .textOrBytesLength >>= skipBytes) := by
  refine (size .textLength .textOrBytesLength).bind ?_
  rintro length _ rfl
  exact ofSpans (Spans.decoded length _)

theorem blob : Alongside 0 Passed Reader.blob (Reader.size .textOrBytesLength >>= skipBytes) := by
  refine (size .bytesLength .textOrBytesLength).bind ?_
  rintro length _ rfl
  exact ofSpans (Spans.bytes length _)

/-- The items of a container after their number. -/
theorem items {read : Reader α} {pass : Reader Unit} (part : DataPart) (f : List α → β)
    (h : Alongside 0 Passed read pass) :
    Alongside 0 Passed
      (Reader.size part >>= fun count => Reader.many read count >>= fun xs => Pure.pure (f xs))
      (Reader.size part >>= Reader.skipMany pass) := by
  refine (size part part).bind ?_
  rintro count _ rfl
  exact (h.many count).map f

/-- A value is passed over by the bytes it is read from, of which there is at least one. -/
theorem value (depth : Nat) : Alongside 1 Passed (Reader.value depth) (skipValue depth) := by
  induction depth with
  | zero => exact fail _ _
  | succ depth ih =>
      have item := ih.weaken
      refine tag.bind ?_
      rintro t _ rfl
      cases t with
      | null => exact pure trivial
      | integer => exact (ofSpans Spans.int64).map _
      | float => exact (ofSpans (Spans.number 8 _)).map _
      | boolean => exact (ofSpans (Spans.number 1 _)).map _
      | text => exact text.map _
      | bytes => exact blob.map _
      | decimal => exact (ofSpans Spans.decimal).map _
      | date => exact (ofSpans Spans.date).map _
      | dateTime => exact (ofSpans Spans.dateTime).map _
      | time => exact (ofSpans Spans.time).map _
      | list => exact items _ _ item
      | mapping =>
          have entry : Alongside 0 Passed
              (do return (← Reader.name, ← Reader.value depth))
              (do let _ ← Reader.name; skipValue depth) :=
            name.bind fun _ _ _ => item.map _
          exact items _ _ entry
      | tuple => exact items _ _ item
      | set => exact items _ _ item
      | frozenSet => exact items _ _ item

end Alongside

/-! ## One column of a row -/

/-- Among columns that can all be read, one is found under its name as the first of that name. -/
theorem column_of_many (target : String) (depth : Nat) {count : Nat} {data rest : Bytes}
    {columns : List (String × Value)}
    (h : many (do return (← name, ← value depth)) count data = .ok (columns, rest)) :
    ∃ left, column target depth count data =
      .ok ((columns.find? fun entry => entry.1 == target).map (·.2), left) := by
  induction count generalizing data columns with
  | zero =>
      cases h
      exact ⟨rest, rfl⟩
  | succ count ih =>
      obtain ⟨entry, mid, hentry, hmore⟩ := bind_eq_ok_iff.1 h
      obtain ⟨others, _, hothers, hlast⟩ := bind_eq_ok_iff.1 hmore
      cases hlast
      obtain ⟨found, behind, hname, hrest⟩ := bind_eq_ok_iff.1 hentry
      obtain ⟨x, _, hvalue, hlast⟩ := bind_eq_ok_iff.1 hrest
      cases hlast
      by_cases htarget : found = target
      · refine ⟨mid, bind_eq_ok_iff.2 ⟨found, behind, hname, ?_⟩⟩
        rw [if_pos htarget, List.find?_cons_of_pos (by simpa using htarget)]
        exact bind_eq_ok_iff.2 ⟨x, mid, hvalue, rfl⟩
      · obtain ⟨_, _, _, _, hskip, _⟩ := Alongside.value depth _ _ _ hvalue
        obtain ⟨left, hleft⟩ := ih hothers
        refine ⟨left, bind_eq_ok_iff.2 ⟨found, behind, hname, ?_⟩⟩
        rw [if_neg htarget, List.find?_cons_of_neg (by simpa using htarget)]
        exact bind_eq_ok_iff.2 ⟨(), mid, hskip, hleft⟩

end Reader

/-- A single column of a row that decodes is the first one of its name. -/
theorem getColumn_of_decodeRow {data : Bytes} {columns : List (String × Value)}
    (h : decodeRow data = .ok columns) (target : String) :
    getColumn data target = .ok ((columns.find? fun entry => entry.1 == target).map (·.2)) := by
  obtain ⟨⟨_, rest⟩, hrow, hlast⟩ := bind_eq_ok.1 h
  cases hlast
  obtain ⟨count, mid, hcount, hcolumns⟩ := Reader.bind_eq_ok_iff.1 hrow
  obtain ⟨left, hcolumn⟩ := Reader.column_of_many target _ hcolumns
  exact bind_eq_ok.2 ⟨(count, mid), hcount, bind_eq_ok.2 ⟨(_, left), hcolumn, rfl⟩⟩

/-- On every byte string, a value that is decoded from the front takes at least one byte, and skipping
it takes the same number of bytes; a single column of a row that decodes is the first column of that
name, or nothing when none has the name. -/
theorem skip_agrees_with_decode :
    (∀ (data rest : Bytes) (value : Value), decodeFront data = .ok (value, rest) →
      ∃ front, data = front ++ rest ∧ 1 ≤ front.length ∧ front.length ≤ data.length ∧
        skip data = .ok front.length) ∧
    (∀ (data : Bytes) (columns : List (String × Value)), decodeRow data = .ok columns →
      ∀ target, getColumn data target =
        .ok ((columns.find? fun entry => entry.1 == target).map (·.2))) := by
  constructor
  · intro data rest value h
    obtain ⟨front, _, hdata, hleast, hskip, -⟩ := Reader.Alongside.value _ _ _ _ h
    have hlength : data.length = front.length + rest.length := by
      rw [hdata, List.length_append]
    refine ⟨front, hdata, hleast, by omega, bind_eq_ok.2 ⟨((), rest), hskip, ?_⟩⟩
    show Except.ok (data.length - rest.length) = .ok front.length
    rw [hlength, Nat.add_sub_cancel]
  · intro data columns h target
    exact getColumn_of_decodeRow h target

/-- A mapping whose keys are out of order and repeated, with a boolean of an unusual byte under one of
them, is skipped as it is decoded; of two columns of one name the first is found. -/
theorem skip_agrees_with_decode_repeated :
    let data : Bytes := [11, 3, 0, 0, 0, 1, 0, 98, 3, 7, 1, 0, 97, 0, 1, 0, 98, 0, 9, 9]
    let row : Bytes := [3, 0, 0, 0, 1, 0, 99, 10, 0, 0, 0, 0, 1, 0, 100, 0, 1, 0, 99, 3, 1, 5]
    decodeFront data = .ok (.mapping [("a", .null), ("b", .null)], [9, 9]) ∧
      skip data = .ok 18 ∧
      decodeRow row = .ok [("c", .list []), ("d", .null), ("c", .boolean true)] ∧
      getColumn row "c" = .ok (some (.list [])) ∧ getColumn row "e" = .ok none := by
  intro data row
  have hdata : decodeFront data = .ok (.mapping [("a", .null), ("b", .null)], [9, 9]) := by
    rfl
  have hrow : decodeRow row = .ok [("c", .list []), ("d", .null), ("c", .boolean true)] := by
    rfl
  obtain ⟨front, hfront, -, -, hskip⟩ := skip_agrees_with_decode.1 data _ _ hdata
  have hlength : front.length = 18 := by
    have h := congrArg List.length hfront
    rw [List.length_append] at h
    exact Nat.add_right_cancel h.symm
  rw [hlength] at hskip
  have hcolumns := skip_agrees_with_decode.2 row _ hrow
  exact ⟨hdata, hskip, hrow, hcolumns "c", hcolumns "e"⟩

end RecordStore
