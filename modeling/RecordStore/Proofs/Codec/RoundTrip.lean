import RecordStore.Proofs.Codec.FrontReading
import RecordStore.Proofs.Codec.KeyOrder
import RecordStore.Proofs.Outcome

/-!
# Reading what was encoded

What encoding writes is read back as the same value, whatever follows it, where all times in the value can
be read; where one cannot, reading fails.  It is passed over as a whole by skipping in both cases.  The main
statement is `encoded_is_read_back`; `takes_value`, `rejects_value` and `takes_skipValue` are its parts, by
induction on the value, and `decodeRow_append` is the law of whole rows.

The recursion of the reader is bounded by a depth.  The number of bytes of a value is bound enough:
every level of nesting takes bytes of its own.
-/

namespace RecordStore

/-! ## What encoding writes -/

theorem encodeLength_eq_ok {n : Nat} {bytes : Bytes} :
    encodeLength n = .ok bytes ↔ n < 4294967296 ∧ bytes = littleEndian 4 n := by
  unfold encodeLength
  by_cases h : n < 4294967296
  · simp [h, eq_comm]
  · simp [h]

theorem encodeBytes_eq_ok {data bytes : Bytes} :
    encodeBytes data = .ok bytes ↔
      data.length < 4294967296 ∧ bytes = littleEndian 4 data.length ++ data := by
  constructor
  · intro h
    obtain ⟨length, hlength, h⟩ := bind_eq_ok.1 h
    obtain ⟨hlt, rfl⟩ := encodeLength_eq_ok.1 hlength
    exact ⟨hlt, (pure_eq_ok.1 h).symm⟩
  · rintro ⟨hlt, rfl⟩
    exact bind_eq_ok.2 ⟨_, encodeLength_eq_ok.2 ⟨hlt, rfl⟩, rfl⟩

theorem encodeName_eq_ok {name : String} {bytes : Bytes} :
    encodeName name = .ok bytes ↔ (textBytes name).length < 65536 ∧
      bytes = littleEndian 2 (textBytes name).length ++ textBytes name := by
  unfold encodeName
  by_cases h : (textBytes name).length < 65536
  · simp [h, eq_comm]
  · simp [h]

/-- What encoding writes for a container: tag, number of items, items. -/
theorem of_encodeSized {tag : UInt8} {count : Nat} {body : Except DataFault Bytes} {bytes : Bytes}
    (h : (do
      let length ← encodeLength count
      let data ← body
      return tag :: (length ++ data)) = .ok bytes) :
    ∃ data, count < 4294967296 ∧ body = .ok data ∧
      bytes = tag :: (littleEndian 4 count ++ data) := by
  obtain ⟨length, hlength, h⟩ := bind_eq_ok.1 h
  obtain ⟨data, hdata, h⟩ := bind_eq_ok.1 h
  obtain ⟨hlt, rfl⟩ := encodeLength_eq_ok.1 hlength
  exact ⟨data, hlt, hdata, (pure_eq_ok.1 h).symm⟩

theorem of_encodeText {tag : UInt8} {data bytes : Bytes}
    (h : (do
      let data ← encodeBytes data
      return tag :: data) = .ok bytes) :
    data.length < 4294967296 ∧ bytes = tag :: (littleEndian 4 data.length ++ data) := by
  obtain ⟨front, hfront, h⟩ := bind_eq_ok.1 h
  obtain ⟨hlt, rfl⟩ := encodeBytes_eq_ok.1 hfront
  exact ⟨hlt, (pure_eq_ok.1 h).symm⟩

theorem of_encodeItems_cons {x : Value} {xs : List Value} {data : Bytes}
    (h : Value.encodeItems (x :: xs) = .ok data) :
    ∃ first rest, x.encode = .ok first ∧ Value.encodeItems xs = .ok rest ∧
      data = first ++ rest := by
  obtain ⟨first, hfirst, h⟩ := bind_eq_ok.1 h
  obtain ⟨rest, hrest, h⟩ := bind_eq_ok.1 h
  exact ⟨first, rest, hfirst, hrest, (pure_eq_ok.1 h).symm⟩

theorem of_encodeEntries_cons {k : String} {x : Value} {xs : List (String × Value)} {data : Bytes}
    (h : Value.encodeEntries ((k, x) :: xs) = .ok data) :
    ∃ first rest, (textBytes k).length < 65536 ∧ x.encode = .ok first ∧
      Value.encodeEntries xs = .ok rest ∧
      data = (littleEndian 2 (textBytes k).length ++ textBytes k) ++ (first ++ rest) := by
  obtain ⟨name, hname, h⟩ := bind_eq_ok.1 h
  obtain ⟨first, hfirst, h⟩ := bind_eq_ok.1 h
  obtain ⟨rest, hrest, h⟩ := bind_eq_ok.1 h
  obtain ⟨hlt, rfl⟩ := encodeName_eq_ok.1 hname
  exact ⟨first, rest, hlt, hfirst, hrest, (pure_eq_ok.1 h).symm⟩

/-! ## Reading -/

open Reader

/-- The tag that a value is encoded with. -/
def Value.tag : Value → Tag
  | null => .null
  | integer _ => .integer
  | float _ => .float
  | boolean _ => .boolean
  | text _ => .text
  | bytes _ => .bytes
  | decimal _ => .decimal
  | date _ => .date
  | dateTime _ => .dateTime
  | time _ => .time
  | list _ => .list
  | mapping _ => .mapping
  | tuple _ => .tuple
  | set _ => .set
  | frozenSet _ => .frozenSet

/-- An encoding begins with the tag of its value. -/
theorem encode_eq_cons {v : Value} {bytes : Bytes} (h : v.encode = .ok bytes) :
    ∃ data, bytes = v.tag.byte :: data := by
  cases v with
  | text s =>
      obtain ⟨-, rfl⟩ := of_encodeText h
      exact ⟨_, rfl⟩
  | bytes b =>
      obtain ⟨-, rfl⟩ := of_encodeText h
      exact ⟨_, rfl⟩
  | list items =>
      obtain ⟨data, -, -, rfl⟩ := of_encodeSized h
      exact ⟨_, rfl⟩
  | mapping entries =>
      obtain ⟨data, -, -, rfl⟩ := of_encodeSized h
      exact ⟨_, rfl⟩
  | tuple items =>
      obtain ⟨data, -, -, rfl⟩ := of_encodeSized h
      exact ⟨_, rfl⟩
  | set members =>
      obtain ⟨data, -, -, rfl⟩ := of_encodeSized h
      exact ⟨_, rfl⟩
  | frozenSet members =>
      obtain ⟨data, -, -, rfl⟩ := of_encodeSized h
      exact ⟨_, rfl⟩
  | _ =>
      cases h
      exact ⟨_, rfl⟩

theorem encode_length_pos {v : Value} {bytes : Bytes} (h : v.encode = .ok bytes) :
    0 < bytes.length := by
  obtain ⟨data, rfl⟩ := encode_eq_cons h
  exact Nat.succ_pos _

mutual

theorem takes_value (depth : Nat) (v : Value) (hv : v.Readable) {bytes : Bytes}
    (h : v.encode = .ok bytes) (hdepth : bytes.length ≤ depth) :
    Takes (Reader.value depth) bytes v.keyOrder := by
  -- A value has at least its tag, so the depth is not used up before the value is read.
  cases depth with
  | zero =>
      have hpos := encode_length_pos h
      omega
  | succ depth =>
      cases v with
      | null =>
          cases h
          exact (Takes.tag .null).bindPure rfl
      | integer n =>
          cases h
          exact (Takes.tag .integer).bind ((Takes.int64 n).map Value.integer)
      | float x =>
          cases h
          have hread := (Takes.float x).map fun n => Value.float ⟨UInt64.ofNat n⟩
          rw [UInt64.ofNat_toNat] at hread
          exact (Takes.tag .float).bind hread
      | boolean b =>
          cases h
          cases b with
          | false =>
              have hbit : Takes (Reader.number 1) (littleEndian 1 0) 0 :=
                Takes.number .unexpectedEnd (by decide)
              have hread := hbit.map fun n => Value.boolean (n != 0)
              exact (Takes.tag .boolean).bind hread
          | true =>
              have hbit : Takes (Reader.number 1) (littleEndian 1 1) 1 :=
                Takes.number .unexpectedEnd (by decide)
              have hread := hbit.map fun n => Value.boolean (n != 0)
              exact (Takes.tag .boolean).bind hread
      | text s =>
          obtain ⟨hlt, rfl⟩ := of_encodeText h
          exact (Takes.tag .text).bind ((Takes.text hlt).map Value.text)
      | bytes b =>
          obtain ⟨hlt, rfl⟩ := of_encodeText h
          exact (Takes.tag .bytes).bind ((Takes.blob hlt).map Value.bytes)
      | decimal d =>
          cases h
          exact (Takes.tag .decimal).bind ((Takes.decimal d).map Value.decimal)
      | date d =>
          cases h
          exact (Takes.tag .date).bind ((Takes.date d).map Value.date)
      | dateTime t =>
          cases h
          exact (Takes.tag .dateTime).bind ((Takes.dateTime hv).map Value.dateTime)
      | time t =>
          cases h
          exact (Takes.tag .time).bind ((Takes.time hv).map Value.time)
      | list items =>
          obtain ⟨data, hlt, hdata, rfl⟩ := of_encodeSized h
          have hitems := takes_items depth items hv hdata (by simp at hdepth; omega)
          exact (Takes.tag .list).bind
            ((Takes.size .sequenceLength hlt).bind (hitems.map Value.list))
      | mapping entries =>
          obtain ⟨data, hlt, hdata, rfl⟩ := of_encodeSized h
          have hentries := takes_entries depth entries hv hdata (by simp at hdepth; omega)
          exact (Takes.tag .mapping).bind
            ((Takes.size .mappingLength hlt).bind (hentries.map Value.mappingOf))
      | tuple items =>
          obtain ⟨data, hlt, hdata, rfl⟩ := of_encodeSized h
          have hitems := takes_items depth items hv hdata (by simp at hdepth; omega)
          exact (Takes.tag .tuple).bind
            ((Takes.size .sequenceLength hlt).bind (hitems.map Value.tuple))
      | set members =>
          obtain ⟨data, hlt, hdata, rfl⟩ := of_encodeSized h
          have hitems := takes_items depth members hv hdata (by simp at hdepth; omega)
          exact (Takes.tag .set).bind
            ((Takes.size .sequenceLength hlt).bind (hitems.map Value.set))
      | frozenSet members =>
          obtain ⟨data, hlt, hdata, rfl⟩ := of_encodeSized h
          have hitems := takes_items depth members hv hdata (by simp at hdepth; omega)
          exact (Takes.tag .frozenSet).bind
            ((Takes.size .sequenceLength hlt).bind (hitems.map Value.frozenSet))
termination_by structural v

theorem takes_items (depth : Nat) (items : List Value) (hitems : Value.ItemsReadable items)
    {data : Bytes} (h : Value.encodeItems items = .ok data) (hdepth : data.length ≤ depth) :
    Takes (many (Reader.value depth) items.length) data (Value.itemsKeyOrder items) := by
  cases items with
  | nil =>
      cases h
      exact Takes.pure []
  | cons x xs =>
      obtain ⟨first, rest, hfirst, hrest, rfl⟩ := of_encodeItems_cons h
      rw [List.length_append] at hdepth
      -- The items share the depth; each is shorter than all of them together.
      have hx := takes_value depth x hitems.1 hfirst (by omega)
      have hxs := takes_items depth xs hitems.2 hrest (by omega)
      exact hx.many_cons hxs
termination_by structural items

theorem takes_entries (depth : Nat) (entries : List (String × Value))
    (hentries : Value.EntriesReadable entries) {data : Bytes}
    (h : Value.encodeEntries entries = .ok data) (hdepth : data.length ≤ depth) :
    Takes (many (do return (← Reader.name, ← Reader.value depth)) entries.length) data
      (Value.entriesKeyOrder entries) := by
  cases entries with
  | nil =>
      cases h
      exact Takes.pure []
  | cons entry xs =>
      obtain ⟨k, x⟩ := entry
      obtain ⟨first, rest, hk, hfirst, hrest, rfl⟩ := of_encodeEntries_cons h
      simp only [List.length_append] at hdepth
      have hx := takes_value depth x hentries.1 hfirst (by omega)
      have hxs := takes_entries depth xs hentries.2 hrest (by omega)
      have hentry : Takes (do return (← Reader.name, ← Reader.value depth))
          ((littleEndian 2 (textBytes k).length ++ textBytes k) ++ first) (k, x.keyOrder) :=
        (Takes.name hk).bind (hx.map fun value => (k, value))
      -- The entry is what the reader takes as one, so its parts are put together first.
      have hall := hentry.many_cons hxs
      rwa [List.append_assoc] at hall
termination_by structural entries

end

/-! ## Times that cannot be read -/

mutual

theorem rejects_value (depth : Nat) (v : Value) (hv : ¬v.Readable) {bytes : Bytes}
    (h : v.encode = .ok bytes) (hdepth : bytes.length ≤ depth) :
    Rejects (Reader.value depth) bytes := by
  cases depth with
  | zero =>
      have hpos := encode_length_pos h
      omega
  | succ depth =>
      cases v with
      | dateTime t =>
          cases h
          exact (Takes.tag .dateTime).bindRejects ((rejects_dateTime hv).map Value.dateTime)
      | time t =>
          cases h
          exact (Takes.tag .time).bindRejects ((rejects_time hv).map Value.time)
      | list items =>
          obtain ⟨data, hlt, hdata, rfl⟩ := of_encodeSized h
          have hitems := rejects_items depth items hv hdata (by simp at hdepth; omega)
          exact (Takes.tag .list).bindRejects
            ((Takes.size .sequenceLength hlt).bindRejects (hitems.map Value.list))
      | mapping entries =>
          obtain ⟨data, hlt, hdata, rfl⟩ := of_encodeSized h
          have hentries := rejects_entries depth entries hv hdata (by simp at hdepth; omega)
          exact (Takes.tag .mapping).bindRejects
            ((Takes.size .mappingLength hlt).bindRejects (hentries.map Value.mappingOf))
      | tuple items =>
          obtain ⟨data, hlt, hdata, rfl⟩ := of_encodeSized h
          have hitems := rejects_items depth items hv hdata (by simp at hdepth; omega)
          exact (Takes.tag .tuple).bindRejects
            ((Takes.size .sequenceLength hlt).bindRejects (hitems.map Value.tuple))
      | set members =>
          obtain ⟨data, hlt, hdata, rfl⟩ := of_encodeSized h
          have hitems := rejects_items depth members hv hdata (by simp at hdepth; omega)
          exact (Takes.tag .set).bindRejects
            ((Takes.size .sequenceLength hlt).bindRejects (hitems.map Value.set))
      | frozenSet members =>
          obtain ⟨data, hlt, hdata, rfl⟩ := of_encodeSized h
          have hitems := rejects_items depth members hv hdata (by simp at hdepth; omega)
          exact (Takes.tag .frozenSet).bindRejects
            ((Takes.size .sequenceLength hlt).bindRejects (hitems.map Value.frozenSet))
      | _ => exact absurd trivial hv
termination_by structural v

/-- The items before the one that cannot be read are read. -/
theorem rejects_items (depth : Nat) (items : List Value) (hitems : ¬Value.ItemsReadable items)
    {data : Bytes} (h : Value.encodeItems items = .ok data) (hdepth : data.length ≤ depth) :
    Rejects (many (Reader.value depth) items.length) data := by
  cases items with
  | nil => exact absurd trivial hitems
  | cons x xs =>
      obtain ⟨first, rest, hfirst, hrest, rfl⟩ := of_encodeItems_cons h
      rw [List.length_append] at hdepth
      by_cases hx : x.Readable
      · have hread := takes_value depth x hx hfirst (by omega)
        have hxs := rejects_items depth xs (fun hxs => hitems ⟨hx, hxs⟩) hrest (by omega)
        exact hread.bindRejects (hxs.map fun others => x.keyOrder :: others)
      · have hread := rejects_value depth x hx hfirst (by omega)
        exact hread.bind rest
termination_by structural items

theorem rejects_entries (depth : Nat) (entries : List (String × Value))
    (hentries : ¬Value.EntriesReadable entries) {data : Bytes}
    (h : Value.encodeEntries entries = .ok data) (hdepth : data.length ≤ depth) :
    Rejects (many (do return (← Reader.name, ← Reader.value depth)) entries.length) data := by
  cases entries with
  | nil => exact absurd trivial hentries
  | cons entry xs =>
      obtain ⟨k, x⟩ := entry
      obtain ⟨first, rest, hk, hfirst, hrest, rfl⟩ := of_encodeEntries_cons h
      simp only [List.length_append] at hdepth
      -- As for reading, the parts of the entry are put together first.
      rw [← List.append_assoc]
      by_cases hx : x.Readable
      · have hread := takes_value depth x hx hfirst (by omega)
        have hentry : Takes (do return (← Reader.name, ← Reader.value depth))
            ((littleEndian 2 (textBytes k).length ++ textBytes k) ++ first) (k, x.keyOrder) :=
          (Takes.name hk).bind (hread.map fun value => (k, value))
        have hxs := rejects_entries depth xs (fun hxs => hentries ⟨hx, hxs⟩) hrest (by omega)
        exact hentry.bindRejects (hxs.map fun others => (k, x.keyOrder) :: others)
      · have hread := rejects_value depth x hx hfirst (by omega)
        have hentry : Rejects (do return (← Reader.name, ← Reader.value depth))
            ((littleEndian 2 (textBytes k).length ++ textBytes k) ++ first) :=
          (Takes.name hk).bindRejects (hread.map fun value => (k, value))
        exact hentry.bind rest
termination_by structural entries

end

/-! ## Skipping -/

theorem takes_skipBytes {count : Nat} {front : Bytes} (h : front.length = count) :
    Takes (skipBytes count) front () :=
  (Takes.bytes (.tooShort .value) h).bindPure rfl

mutual

theorem takes_skipValue (depth : Nat) (v : Value) {bytes : Bytes} (h : v.encode = .ok bytes)
    (hdepth : bytes.length ≤ depth) : Takes (skipValue depth) bytes () := by
  cases depth with
  | zero =>
      have hpos := encode_length_pos h
      omega
  | succ depth =>
      cases v with
      | null =>
          cases h
          exact (Takes.tag .null).bindPure rfl
      | integer n =>
          cases h
          exact (Takes.tag .integer).bind (takes_skipBytes (length_littleEndian 8 _))
      | float x =>
          cases h
          exact (Takes.tag .float).bind (takes_skipBytes (length_littleEndian 8 _))
      | boolean b =>
          cases h
          exact (Takes.tag .boolean).bind (takes_skipBytes rfl)
      | text s =>
          obtain ⟨hlt, rfl⟩ := of_encodeText h
          exact (Takes.tag .text).bind
            ((Takes.size .textOrBytesLength hlt).bind (takes_skipBytes rfl))
      | bytes b =>
          obtain ⟨hlt, rfl⟩ := of_encodeText h
          exact (Takes.tag .bytes).bind
            ((Takes.size .textOrBytesLength hlt).bind (takes_skipBytes rfl))
      | decimal d =>
          cases h
          exact (Takes.tag .decimal).bind (takes_skipBytes (by simp))
      | date d =>
          cases h
          exact (Takes.tag .date).bind (takes_skipBytes (length_littleEndian 4 _))
      | dateTime t =>
          cases h
          exact (Takes.tag .dateTime).bind (takes_skipBytes (by simp))
      | time t =>
          cases h
          exact (Takes.tag .time).bind (takes_skipBytes (by simp))
      | list items =>
          obtain ⟨data, hlt, hdata, rfl⟩ := of_encodeSized h
          have hitems := takes_skipItems depth items hdata (by simp at hdepth; omega)
          exact (Takes.tag .list).bind ((Takes.size .sequenceLength hlt).bind hitems)
      | mapping entries =>
          obtain ⟨data, hlt, hdata, rfl⟩ := of_encodeSized h
          have hentries := takes_skipEntries depth entries hdata (by simp at hdepth; omega)
          exact (Takes.tag .mapping).bind ((Takes.size .mappingLength hlt).bind hentries)
      | tuple items =>
          obtain ⟨data, hlt, hdata, rfl⟩ := of_encodeSized h
          have hitems := takes_skipItems depth items hdata (by simp at hdepth; omega)
          exact (Takes.tag .tuple).bind ((Takes.size .sequenceLength hlt).bind hitems)
      | set members =>
          obtain ⟨data, hlt, hdata, rfl⟩ := of_encodeSized h
          have hitems := takes_skipItems depth members hdata (by simp at hdepth; omega)
          exact (Takes.tag .set).bind ((Takes.size .sequenceLength hlt).bind hitems)
      | frozenSet members =>
          obtain ⟨data, hlt, hdata, rfl⟩ := of_encodeSized h
          have hitems := takes_skipItems depth members hdata (by simp at hdepth; omega)
          exact (Takes.tag .frozenSet).bind ((Takes.size .sequenceLength hlt).bind hitems)
termination_by structural v

theorem takes_skipItems (depth : Nat) (items : List Value) {data : Bytes}
    (h : Value.encodeItems items = .ok data) (hdepth : data.length ≤ depth) :
    Takes (skipMany (skipValue depth) items.length) data () := by
  cases items with
  | nil =>
      cases h
      exact Takes.pure ()
  | cons x xs =>
      obtain ⟨first, rest, hfirst, hrest, rfl⟩ := of_encodeItems_cons h
      rw [List.length_append] at hdepth
      have hx := takes_skipValue depth x hfirst (by omega)
      have hxs := takes_skipItems depth xs hrest (by omega)
      exact hx.skipMany_cons hxs
termination_by structural items

theorem takes_skipEntries (depth : Nat) (entries : List (String × Value)) {data : Bytes}
    (h : Value.encodeEntries entries = .ok data) (hdepth : data.length ≤ depth) :
    Takes (skipMany (do let _ ← Reader.name; skipValue depth) entries.length) data () := by
  cases entries with
  | nil =>
      cases h
      exact Takes.pure ()
  | cons entry xs =>
      obtain ⟨k, x⟩ := entry
      obtain ⟨first, rest, hk, hfirst, hrest, rfl⟩ := of_encodeEntries_cons h
      simp only [List.length_append] at hdepth
      have hx := takes_skipValue depth x hfirst (by omega)
      have hxs := takes_skipEntries depth xs hrest (by omega)
      have hentry : Takes (do let _ ← Reader.name; skipValue depth)
          ((littleEndian 2 (textBytes k).length ++ textBytes k) ++ first) () :=
        (Takes.name hk).bind hx
      have hall := hentry.skipMany_cons hxs
      rwa [List.append_assoc] at hall
termination_by structural entries

end

/-! ## Whole byte strings -/

/-- A value is read from the front of its bytes whatever follows, its mappings in key order. -/
theorem decodeFront_append {v : Value} (hv : v.Readable) {bytes : Bytes} (h : v.encode = .ok bytes)
    (rest : Bytes) : decodeFront (bytes ++ rest) = .ok (v.keyOrder, rest) := by
  refine takes_value _ v hv h ?_ rest
  simp only [List.length_append]
  omega

theorem decode_encode {v : Value} (hv : v.Readable) {bytes : Bytes} (h : v.encode = .ok bytes) :
    decode bytes = .ok v.keyOrder := by
  have hfront := decodeFront_append hv h []
  rw [List.append_nil] at hfront
  exact bind_eq_ok.2 ⟨(v.keyOrder, []), hfront, rfl⟩

/-- A value with a time that cannot be read is not read, whatever follows its bytes. -/
theorem decodeFront_of_unreadable {v : Value} (hv : ¬v.Readable) {bytes : Bytes}
    (h : v.encode = .ok bytes) (rest : Bytes) :
    ∃ fault, decodeFront (bytes ++ rest) = .error fault := by
  obtain ⟨fault, hfault⟩ := rejects_value ((bytes ++ rest).length + 1) v hv h
    (by simp only [List.length_append]; omega)
  exact ⟨fault, hfault rest⟩

theorem decode_of_unreadable {v : Value} (hv : ¬v.Readable) {bytes : Bytes} (h : v.encode = .ok bytes)
    (rest : Bytes) : ∃ fault, decode (bytes ++ rest) = .error fault := by
  obtain ⟨fault, hfault⟩ := decodeFront_of_unreadable hv h rest
  exact ⟨fault, bind_eq_error.2 (Or.inl hfault)⟩

/-- What is decoded from the bytes of a value is the value. -/
theorem decode_encode_iff {v found : Value} {bytes : Bytes} (h : v.encode = .ok bytes) :
    decode bytes = .ok found ↔ v.Readable ∧ found = v.keyOrder := by
  by_cases hv : v.Readable
  · rw [decode_encode hv h, Except.ok.injEq, eq_comm]
    exact (and_iff_right hv).symm
  · obtain ⟨fault, hfault⟩ := decode_of_unreadable hv h []
    rw [List.append_nil] at hfault
    simp [hfault, hv]

theorem skip_append (v : Value) {bytes : Bytes} (h : v.encode = .ok bytes) (rest : Bytes) :
    skip (bytes ++ rest) = .ok bytes.length := by
  have hskip : skipValue ((bytes ++ rest).length + 1) (bytes ++ rest) = .ok ((), rest) := by
    refine takes_skipValue _ v h ?_ rest
    simp only [List.length_append]
    omega
  refine bind_eq_ok.2 ⟨((), rest), hskip, ?_⟩
  simp only [List.length_append, Nat.add_sub_cancel]
  rfl

section Rows

variable {columns : List (String × Value)} (hcount : columns.length < 4294967296) {bytes : Bytes}
  (h : encodeRow columns = .ok bytes) (rest : Bytes)

include hcount h

/-- The columns of a row are taken from the front of any longer byte string.  Their number has to fit
into the 32 bits in which it is written. -/
theorem row_append (hcolumns : ∀ column ∈ columns, column.2.Readable) :
    Reader.row ((bytes ++ rest).length + 1) (bytes ++ rest) =
      .ok (Value.entriesKeyOrder columns, rest) := by
  obtain ⟨data, hdata, h⟩ := bind_eq_ok.1 h
  obtain rfl := pure_eq_ok.1 h
  have hbound : data.length ≤ ((littleEndian 4 columns.length ++ data) ++ rest).length + 1 := by
    simp only [List.length_append]
    omega
  have hentries := takes_entries _ columns (Value.entriesReadable_iff.2 hcolumns) hdata hbound
  have hrow := (Takes.size .columnCount hcount).bind hentries
  exact hrow rest

theorem decodeRow_append (hcolumns : ∀ column ∈ columns, column.2.Readable) :
    decodeRow (bytes ++ rest) = .ok (Value.entriesKeyOrder columns) :=
  bind_eq_ok.2 ⟨(Value.entriesKeyOrder columns, rest), row_append hcount h rest hcolumns, rfl⟩

/-- A row with a time that cannot be read is not read at all. -/
theorem row_of_unreadable (hcolumns : ¬∀ column ∈ columns, column.2.Readable) :
    ∃ fault, Reader.row ((bytes ++ rest).length + 1) (bytes ++ rest) = .error fault := by
  obtain ⟨data, hdata, h⟩ := bind_eq_ok.1 h
  obtain rfl := pure_eq_ok.1 h
  have hbound : data.length ≤ ((littleEndian 4 columns.length ++ data) ++ rest).length + 1 := by
    simp only [List.length_append]
    omega
  have hentries := rejects_entries _ columns (fun hall => hcolumns (Value.entriesReadable_iff.1 hall))
    hdata hbound
  obtain ⟨fault, hfault⟩ := (Takes.size .columnCount hcount).bindRejects hentries
  exact ⟨fault, hfault rest⟩

theorem decodeRow_of_unreadable (hcolumns : ¬∀ column ∈ columns, column.2.Readable) :
    ∃ fault, decodeRow (bytes ++ rest) = .error fault := by
  obtain ⟨fault, hfault⟩ := row_of_unreadable hcount h rest hcolumns
  exact ⟨fault, bind_eq_error.2 (Or.inl hfault)⟩

end Rows

/-- What is encoded is decoded as exactly the same value, is skipped as a whole, and is taken from
the front of any longer byte string without touching what follows; rows likewise.  Bits of
floating-point numbers, sign and scale of decimals, repeated members and all orders are part of a
value.  All this holds where the times of day in the value are made again of the parts that are written for
them; a value or a row with another one is skipped as a whole as well, but not decoded. -/
theorem encoded_is_read_back :
    (∀ v : Value, v.KeyOrdered → ∀ bytes : Bytes, v.encode = .ok bytes →
      skip bytes = .ok bytes.length ∧
      (v.Readable → decode bytes = .ok v ∧
        ∀ rest : Bytes, decodeFront (bytes ++ rest) = .ok (v, rest)) ∧
      (¬v.Readable → ∀ rest : Bytes, ∃ fault, decode (bytes ++ rest) = .error fault)) ∧
    (∀ columns : List (String × Value), (∀ column ∈ columns, column.2.KeyOrdered) →
      columns.length < 4294967296 → ∀ bytes : Bytes, encodeRow columns = .ok bytes →
        ((∀ column ∈ columns, column.2.Readable) →
          ∀ rest : Bytes, decodeRow (bytes ++ rest) = .ok columns) ∧
        ((¬∀ column ∈ columns, column.2.Readable) →
          ∀ rest : Bytes, ∃ fault, decodeRow (bytes ++ rest) = .error fault)) := by
  refine ⟨?_, ?_⟩
  · intro v hv bytes h
    have hsame : v.keyOrder = v := v.keyOrder_eq hv
    have hskip := skip_append v h []
    rw [List.append_nil] at hskip
    refine ⟨hskip, ?_, fun hreadable => decode_of_unreadable hreadable h⟩
    intro hreadable
    refine ⟨?_, ?_⟩
    · rw [decode_encode hreadable h, hsame]
    · intro rest
      rw [decodeFront_append hreadable h rest, hsame]
  · intro columns hcolumns hcount bytes h
    have hsame := Value.entriesKeyOrder_eq columns (Value.entriesKeyOrdered_iff.2 hcolumns)
    refine ⟨?_, fun hreadable rest => decodeRow_of_unreadable hcount h rest hreadable⟩
    intro hreadable rest
    rw [decodeRow_append hcount h rest hreadable, hsame]

/-- A signalling pattern of a float, a negative zero with two places and a set that holds the same
member twice come back as they were, and so do a leap second and a row with bytes behind it. -/
theorem encoded_is_read_back_nested :
    let v : Value := .mapping [
      ("k", .set [.float ⟨0x7ff0000000000001⟩, .null, .null]),
      ("l", .tuple [.decimal { negative := true, mantissa := 0, scale := 2 }])]
    let bytes : Bytes := [
      11, 2, 0, 0, 0, 1, 0, 107, 13, 3, 0, 0, 0, 2, 1, 0, 0, 0, 0, 0, 240, 127, 0, 0,
      1, 0, 108, 12, 1, 0, 0, 0, 6, 0, 0, 2, 128, 0, 0, 0, 0, 0, 0, 0, 0, 0, 0, 0, 0]
    let columns : List (String × Value) := [
      ("c", .bytes [0]), ("c", .time { seconds := 86399, nanos := 1500000000 })]
    let row : Bytes := [
      2, 0, 0, 0, 1, 0, 99, 5, 1, 0, 0, 0, 0, 1, 0, 99, 9, 127, 81, 1, 0, 0, 47, 104, 89]
    v.KeyOrdered ∧ v.encode = .ok bytes ∧ encodeRow columns = .ok row ∧
      decode bytes = .ok v ∧ skip bytes = .ok 49 ∧ decodeFront (bytes ++ [7]) = .ok (v, [7]) ∧
      decodeRow (row ++ [7]) = .ok columns := by
  intro v bytes columns row
  have hv : v.KeyOrdered := by
    refine ⟨List.Pairwise.cons (by decide) (List.pairwise_singleton _ _), ?_⟩
    simp [Value.KeyOrdered, Value.EntriesKeyOrdered, Value.ItemsKeyOrdered]
  have hencode : v.encode = .ok bytes := rfl
  have hreadable : v.Readable := by
    simp [v, Value.Readable, Value.EntriesReadable, Value.ItemsReadable]
  obtain ⟨hskip, hvalue, -⟩ := encoded_is_read_back.1 v hv bytes hencode
  have hcolumns : ∀ column ∈ columns, column.2.KeyOrdered := by
    simp [columns, Value.KeyOrdered]
  have htimes : ∀ column ∈ columns, column.2.Readable := by
    simp [columns, Value.Readable, TimeOfDay.Readable]
  have hrow : encodeRow columns = .ok row := by
    show encodeRow [("c", .bytes [0]), ("c", .time { seconds := 86399, nanos := 1500000000 })] = .ok row
    rfl
  have hback := (encoded_is_read_back.2 columns hcolumns (by decide) row hrow).1 htimes [7]
  exact ⟨hv, hencode, hrow, (hvalue hreadable).1, hskip, (hvalue hreadable).2 [7], hback⟩

end RecordStore
