import RecordStore.Proofs.Codec.Lengths
import RecordStore.Proofs.SortedMap

/-!
# Encoding again what was decoded

Decoding accepts more than encoding writes: any byte but zero as true, ignored bits and large scales in
a decimal, and mappings with unsorted or repeated keys.  What it gives can always be encoded again, in
at most as many bytes (`Reader.Rewrites`): lengths are read from the fields that they are written to,
scalars have one size, and a mapping only loses entries (`encode_mappingOf`).

The main statement is `decoded_is_normalized`: encoding again fails for nothing that was decoded, and
gives bytes that are decoded as the same value and that encoding no longer changes.
-/

namespace RecordStore

/-! ## Writing -/

/-- A container is written after its tag and its number of items. -/
theorem encodeSized_eq_ok {tag : UInt8} {count : Nat} {body : Except DataFault Bytes} {data : Bytes}
    (hcount : count < 4294967296) (hbody : body = .ok data) :
    (do
      let length ← encodeLength count
      let data ← body
      return tag :: (length ++ data)) = .ok (tag :: (littleEndian 4 count ++ data)) :=
  bind_eq_ok.2 ⟨_, encodeLength_eq_ok.2 ⟨hcount, rfl⟩, bind_eq_ok.2 ⟨_, hbody, rfl⟩⟩

theorem encodeText_eq_ok {tag : UInt8} {data : Bytes} (hlt : data.length < 4294967296) :
    (do
      let data ← encodeBytes data
      return tag :: data) = .ok (tag :: (littleEndian 4 data.length ++ data)) :=
  bind_eq_ok.2 ⟨_, encodeBytes_eq_ok.2 ⟨hlt, rfl⟩, rfl⟩

section Mappings

variable {k : String} {x : Value} {entries pairs : List (String × Value)} {first data : Bytes}

theorem encodeEntries_cons (hk : (textBytes k).length < 65536) (hx : x.encode = .ok first)
    (h : Value.encodeEntries entries = .ok data) :
    Value.encodeEntries ((k, x) :: entries) =
      .ok ((littleEndian 2 (textBytes k).length ++ textBytes k) ++ (first ++ data)) :=
  bind_eq_ok.2 ⟨_, encodeName_eq_ok.2 ⟨hk, rfl⟩, bind_eq_ok.2 ⟨_, hx, bind_eq_ok.2 ⟨_, h, rfl⟩⟩⟩

/-- Storing an entry adds at most the bytes of that entry. -/
theorem encodeEntries_insert (hk : (textBytes k).length < 65536) (hx : x.encode = .ok first)
    (h : Value.encodeEntries entries = .ok data) :
    ∃ bytes, Value.encodeEntries (Entries.insert k x entries) = .ok bytes ∧
      bytes.length ≤ data.length + (2 + (textBytes k).length + first.length) := by
  induction entries generalizing data with
  | nil =>
      cases h
      refine ⟨_, encodeEntries_cons hk hx rfl, ?_⟩
      simp only [List.length_append, length_littleEndian, List.length_nil]
      omega
  | cons head rest ih =>
      obtain ⟨k', x'⟩ := head
      have hwhole := h
      obtain ⟨first', data', hk', hx', hrest, rfl⟩ := of_encodeEntries_cons h
      unfold Entries.insert
      by_cases hsame : k = k'
      · -- The entry that was there is replaced.
        rw [if_pos hsame]
        refine ⟨_, encodeEntries_cons hk hx hrest, ?_⟩
        simp only [List.length_append, length_littleEndian]
        omega
      · rw [if_neg hsame]
        by_cases hlt : KeyOrder.lt k k' = true
        · rw [if_pos hlt]
          refine ⟨_, encodeEntries_cons hk hx hwhole, ?_⟩
          simp only [List.length_append, length_littleEndian]
          omega
        · rw [if_neg hlt]
          obtain ⟨bytes, hbytes, hlength⟩ := ih hrest
          refine ⟨_, encodeEntries_cons hk' hx' hbytes, ?_⟩
          simp only [List.length_append, length_littleEndian]
          omega

theorem encodeEntries_foldl_insert {start : Bytes} (hstart : Value.encodeEntries entries = .ok start)
    (h : Value.encodeEntries pairs = .ok data) :
    ∃ bytes, Value.encodeEntries
        (pairs.foldl (fun entries pair => Entries.insert pair.1 pair.2 entries) entries) = .ok bytes ∧
      bytes.length ≤ start.length + data.length := by
  induction pairs generalizing entries start data with
  | nil => exact ⟨start, hstart, Nat.le_add_right _ _⟩
  | cons pair rest ih =>
      obtain ⟨k, x⟩ := pair
      obtain ⟨first, data', hk, hx, hrest, rfl⟩ := of_encodeEntries_cons h
      obtain ⟨next, hnext, hlength⟩ := encodeEntries_insert hk hx hstart
      obtain ⟨bytes, hbytes, hall⟩ := ih hnext hrest
      refine ⟨bytes, hbytes, ?_⟩
      simp only [List.length_append, length_littleEndian]
      omega

/-- A mapping of pairs is written where the pairs are, in at most as many bytes. -/
theorem encode_mappingOf (hcount : pairs.length < 4294967296)
    (h : Value.encodeEntries pairs = .ok data) :
    ∃ bytes, (Value.mappingOf pairs).encode = .ok bytes ∧ bytes.length ≤ 5 + data.length := by
  have hfewer : (Entries.ofList pairs).length ≤ pairs.length := by
    have hle := Entries.length_foldl_insert_le pairs []
    rwa [List.length_nil, Nat.zero_add] at hle
  have hnone : Value.encodeEntries [] = .ok [] := rfl
  obtain ⟨bytes, hbytes, hlength⟩ := encodeEntries_foldl_insert hnone h
  rw [List.length_nil, Nat.zero_add] at hlength
  refine ⟨_, encodeSized_eq_ok (Nat.lt_of_le_of_lt hfewer hcount) hbytes, ?_⟩
  simp only [List.length_cons, List.length_append, length_littleEndian]
  omega

end Mappings

/-! ## Readers and what is written again -/

namespace Reader

variable {α β : Type}

/-- What the reader gives can be written, in at most so many bytes as it takes and as were taken
before it. -/
def Rewrites (before : Nat) (read : Reader α) (write : α → Except DataFault Bytes) : Prop :=
  ∀ (data rest : Bytes) (a : α), read data = .ok (a, rest) →
    ∃ bytes, write a = .ok bytes ∧ bytes.length + rest.length ≤ before + data.length

namespace Rewrites

variable {before count : Nat} {read : Reader α} {write : α → Except DataFault Bytes}
  {write' : β → Except DataFault Bytes}

theorem pure {a : α} (h : ∃ bytes, write a = .ok bytes ∧ bytes.length ≤ before) :
    Rewrites before (Pure.pure a) write := by
  intro data rest b hread
  cases hread
  obtain ⟨bytes, hbytes, hlength⟩ := h
  exact ⟨bytes, hbytes, by omega⟩

theorem bind {next : α → Reader β} (hread : Spans read count)
    (hnext : ∀ a, Rewrites (before + count) (next a) write') :
    Rewrites before (read >>= next) write' := by
  intro data rest b h
  obtain ⟨a, mid, hfirst, hlast⟩ := bind_eq_ok_iff.1 h
  obtain ⟨hcount, rfl⟩ := hread _ _ _ hfirst
  obtain ⟨bytes, hbytes, hlength⟩ := hnext a _ _ _ hlast
  rw [List.length_drop] at hlength
  exact ⟨bytes, hbytes, by omega⟩

/-- What is read from a number of bytes and written in as many. -/
theorem map {f : α → β} (hread : Spans read count)
    (h : ∀ a, ∃ bytes, write' (f a) = .ok bytes ∧ bytes.length ≤ before + count) :
    Rewrites before (read >>= fun a => Pure.pure (f a)) write' :=
  bind hread fun a => pure (h a)

theorem many {writeAll : List α → Except DataFault Bytes} (hnil : writeAll [] = .ok [])
    (hcons : ∀ {a as first rest}, write a = .ok first → writeAll as = .ok rest →
      writeAll (a :: as) = .ok (first ++ rest))
    (h : Rewrites 0 read write) (count : Nat) : Rewrites 0 (Reader.many read count) writeAll := by
  induction count with
  | zero => exact pure ⟨[], hnil, Nat.le_refl 0⟩
  | succ count ih =>
      intro data rest as hread
      obtain ⟨a, mid, hfirst, hmore⟩ := bind_eq_ok_iff.1 hread
      obtain ⟨others, _, hothers, hlast⟩ := bind_eq_ok_iff.1 hmore
      cases hlast
      obtain ⟨bytes, hbytes, hlength⟩ := h _ _ _ hfirst
      obtain ⟨bytes', hbytes', hlength'⟩ := ih _ _ _ hothers
      refine ⟨bytes ++ bytes', hcons hbytes hbytes', ?_⟩
      rw [List.length_append]
      omega

/-! ## Values -/

/-- The items of a container are read after their number, which is the number of items again. -/
theorem sized {part : DataPart} {writeAll : List α → Except DataFault Bytes} {f : List α → Value}
    (hitems : ∀ count, Rewrites 0 (Reader.many read count) writeAll)
    (hwrite : ∀ as data, as.length < 4294967296 → writeAll as = .ok data →
      ∃ bytes, (f as).encode = .ok bytes ∧ bytes.length ≤ 5 + data.length) :
    Rewrites 1 (Reader.size part >>= fun count =>
      Reader.many read count >>= fun as => Pure.pure (f as)) Value.encode := by
  intro data rest v h
  obtain ⟨count, mid, hcount, hmore⟩ := bind_eq_ok_iff.1 h
  obtain ⟨as, _, has, hlast⟩ := bind_eq_ok_iff.1 hmore
  cases hlast
  obtain ⟨hlt, hbefore⟩ := of_number hcount
  obtain ⟨body, hbody, hbehind⟩ := hitems count _ _ _ has
  rw [← length_of_many has] at hlt
  obtain ⟨bytes, hbytes, hlength⟩ := hwrite as body hlt hbody
  exact ⟨bytes, hbytes, by omega⟩

theorem text : Rewrites 1 (Reader.text >>= fun s => Pure.pure (Value.text s)) Value.encode := by
  intro data rest v h
  obtain ⟨s, _, htext, hlast⟩ := bind_eq_ok_iff.1 h
  cases hlast
  obtain ⟨hlt, hlength⟩ := of_text htext
  refine ⟨_, encodeText_eq_ok hlt, ?_⟩
  simp only [List.length_cons, List.length_append, length_littleEndian]
  omega

theorem blob : Rewrites 1 (Reader.blob >>= fun b => Pure.pure (Value.bytes b)) Value.encode := by
  intro data rest v h
  obtain ⟨b, _, hblob, hlast⟩ := bind_eq_ok_iff.1 h
  cases hlast
  obtain ⟨hlt, hlength⟩ := of_blob hblob
  refine ⟨_, encodeText_eq_ok hlt, ?_⟩
  simp only [List.length_cons, List.length_append, length_littleEndian]
  omega

/-- A name and a value make an entry. -/
theorem entry {read : Reader Value} (h : Rewrites 0 read Value.encode) :
    Rewrites 0 (do return (← Reader.name, ← read)) fun entry => Value.encodeEntries [entry] := by
  intro data rest pair hread
  obtain ⟨k, mid, hname, hmore⟩ := bind_eq_ok_iff.1 hread
  obtain ⟨x, _, hx, hlast⟩ := bind_eq_ok_iff.1 hmore
  cases hlast
  obtain ⟨hk, hbefore⟩ := of_name hname
  obtain ⟨first, hfirst, hbehind⟩ := h _ _ _ hx
  refine ⟨_, encodeEntries_cons hk hfirst rfl, ?_⟩
  simp only [List.length_append, length_littleEndian, List.length_nil]
  omega

/-- The values of a container. -/
theorem sequence {read : Reader Value} (h : Rewrites 0 read Value.encode) (count : Nat) :
    Rewrites 0 (Reader.many read count) Value.encodeItems := by
  refine many ?_ ?_ h count
  · rfl
  · intro x xs first rest hfirst hrest
    exact bind_eq_ok.2 ⟨first, hfirst, bind_eq_ok.2 ⟨rest, hrest, rfl⟩⟩

/-- The entries of a mapping, before those of one key are put together. -/
theorem entries {read : Reader Value} (h : Rewrites 0 read Value.encode) (count : Nat) :
    Rewrites 0 (Reader.many (do return (← Reader.name, ← read)) count) Value.encodeEntries := by
  refine many ?_ ?_ h.entry count
  · rfl
  · rintro ⟨k, x⟩ xs first rest hfirst hrest
    obtain ⟨written, none, hk, hx, hnone, rfl⟩ := of_encodeEntries_cons hfirst
    cases hnone
    rw [List.append_nil, List.append_assoc]
    exact encodeEntries_cons hk hx hrest

theorem value (depth : Nat) : Rewrites 0 (Reader.value depth) Value.encode := by
  induction depth with
  | zero =>
      intro data rest v h
      cases h
  | succ depth ih =>
      -- The tag is the one byte that encoding may write beside what the rest is read from.
      refine bind Spans.tag fun t => ?_
      cases t with
      | null => exact pure ⟨_, rfl, by simp⟩
      | integer => exact map Spans.int64 fun n => ⟨_, rfl, by simp⟩
      | float => exact map (Spans.number 8 _) fun n => ⟨_, rfl, by simp⟩
      | boolean => exact map (Spans.number 1 _) fun n => ⟨_, rfl, by simp⟩
      | text => exact text
      | bytes => exact blob
      | decimal => exact map Spans.decimal fun d => ⟨_, rfl, by simp [encodeDecimal]⟩
      | date => exact map Spans.date fun d => ⟨_, rfl, by simp⟩
      | dateTime => exact map Spans.dateTime fun t => ⟨_, rfl, by simp⟩
      | time => exact map Spans.time fun t => ⟨_, rfl, by simp⟩
      | mapping => exact sized ih.entries fun pairs data hlt hdata => encode_mappingOf hlt hdata
      | list | tuple | set | frozenSet =>
          refine sized ih.sequence fun items data hlt hdata => ⟨_, encodeSized_eq_ok hlt hdata, ?_⟩
          simp only [List.length_cons, List.length_append, length_littleEndian]
          omega

end Rewrites

end Reader

/-! ## Key order -/

/-- The mappings of a value that was read are in key order, whatever order they were in. -/
theorem Reader.keyOrdered_of_value {depth : Nat} {data rest : Bytes} {v : Value}
    (h : Reader.value depth data = .ok (v, rest)) : v.KeyOrdered := by
  induction depth generalizing data rest v with
  | zero => cases h
  | succ depth ih =>
      obtain ⟨t, _, -, h⟩ := bind_eq_ok_iff.1 h
      cases t with
      | null =>
          cases h
          trivial
      | list | tuple | set | frozenSet =>
          obtain ⟨_, _, -, hitems⟩ := bind_eq_ok_iff.1 h
          obtain ⟨items, _, hmany, hlast⟩ := bind_eq_ok_iff.1 hitems
          cases hlast
          exact Value.itemsKeyOrdered_iff.2 (forall_mem_of_many (fun _ _ _ hitem => ih hitem) hmany)
      | mapping =>
          obtain ⟨_, _, -, hentries⟩ := bind_eq_ok_iff.1 h
          obtain ⟨pairs, _, hmany, hlast⟩ := bind_eq_ok_iff.1 hentries
          cases hlast
          have hpairs : ∀ pair ∈ pairs, pair.2.KeyOrdered := by
            refine forall_mem_of_many ?_ hmany
            intro _ _ pair hpair
            obtain ⟨_, _, -, hvalue⟩ := bind_eq_ok_iff.1 hpair
            obtain ⟨x, _, hx, hlast⟩ := bind_eq_ok_iff.1 hvalue
            cases hlast
            exact ih hx
          -- The order comes from putting the entries together, not from the data.
          exact ⟨Entries.sorted_ofList pairs, Value.entriesKeyOrdered_iff.2 fun pair hpair =>
            hpairs pair (Entries.mem_of_mem_ofList hpair)⟩
      | _ =>
          obtain ⟨_, _, -, hlast⟩ := bind_eq_ok_iff.1 h
          cases hlast
          trivial

/-! ## Times of day -/

theorem Reader.readable_of_time {data rest : Bytes} {t : TimeOfDay}
    (h : Reader.time data = .ok (t, rest)) : t.Readable := by
  obtain ⟨seconds, _, -, hmore⟩ := bind_eq_ok_iff.1 h
  obtain ⟨nanos, _, -, hparts⟩ := bind_eq_ok_iff.1 hmore
  cases hmade : TimeOfDay.ofParts? seconds nanos with
  | none =>
      rw [hmade] at hparts
      cases hparts
  | some t =>
      rw [hmade] at hparts
      cases hparts
      exact TimeOfDay.readable_of_ofParts? hmade

theorem Reader.readable_of_dateTime {data rest : Bytes} {t : DateTime}
    (h : Reader.dateTime data = .ok (t, rest)) : t.time.Readable := by
  obtain ⟨seconds, _, -, hmore⟩ := bind_eq_ok_iff.1 h
  obtain ⟨nanos, _, -, hparts⟩ := bind_eq_ok_iff.1 hmore
  cases hmade : DateTime.ofUnix? seconds.toInt nanos with
  | none =>
      rw [hmade] at hparts
      cases hparts
  | some t =>
      rw [hmade] at hparts
      cases hparts
      exact DateTime.readable_of_ofUnix? hmade

/-- The times of day in a value that was read were made of their parts, so they can be read again. -/
theorem Reader.readable_of_value {depth : Nat} {data rest : Bytes} {v : Value}
    (h : Reader.value depth data = .ok (v, rest)) : v.Readable := by
  induction depth generalizing data rest v with
  | zero => cases h
  | succ depth ih =>
      obtain ⟨t, _, -, h⟩ := bind_eq_ok_iff.1 h
      cases t with
      | null =>
          cases h
          trivial
      | time =>
          obtain ⟨t, _, htime, hlast⟩ := bind_eq_ok_iff.1 h
          cases hlast
          exact readable_of_time htime
      | dateTime =>
          obtain ⟨t, _, htime, hlast⟩ := bind_eq_ok_iff.1 h
          cases hlast
          exact readable_of_dateTime htime
      | list | tuple | set | frozenSet =>
          obtain ⟨_, _, -, hitems⟩ := bind_eq_ok_iff.1 h
          obtain ⟨items, _, hmany, hlast⟩ := bind_eq_ok_iff.1 hitems
          cases hlast
          exact Value.itemsReadable_iff.2 (forall_mem_of_many (fun _ _ _ hitem => ih hitem) hmany)
      | mapping =>
          obtain ⟨_, _, -, hentries⟩ := bind_eq_ok_iff.1 h
          obtain ⟨pairs, _, hmany, hlast⟩ := bind_eq_ok_iff.1 hentries
          cases hlast
          have hpairs : ∀ pair ∈ pairs, pair.2.Readable := by
            refine forall_mem_of_many ?_ hmany
            intro _ _ pair hpair
            obtain ⟨_, _, -, hvalue⟩ := bind_eq_ok_iff.1 hpair
            obtain ⟨x, _, hx, hlast⟩ := bind_eq_ok_iff.1 hvalue
            cases hlast
            exact ih hx
          exact Value.entriesReadable_iff.2 fun pair hpair => hpairs pair (Entries.mem_of_mem_ofList hpair)
      | _ =>
          obtain ⟨_, _, -, hlast⟩ := bind_eq_ok_iff.1 h
          cases hlast
          trivial

/-! ## Whole byte strings -/

theorem decode_eq_ok {data : Bytes} {v : Value} :
    decode data = .ok v ↔ decodeFront data = .ok (v, []) := by
  constructor
  · intro h
    obtain ⟨⟨found, rest⟩, hfront, hlast⟩ := bind_eq_ok.1 h
    cases rest with
    | nil =>
        cases hlast
        exact hfront
    | cons byte rest => cases hlast
  · intro hfront
    exact bind_eq_ok.2 ⟨(v, []), hfront, rfl⟩

theorem readable_of_decode {data : Bytes} {v : Value} (h : decode data = .ok v) : v.Readable :=
  Reader.readable_of_value (decode_eq_ok.1 h)

/-- Whatever bytes a value was decoded from, encoding it succeeds, takes no more bytes than these, and
gives bytes that decode as exactly the same value, which is encoded as these bytes again. -/
theorem decoded_is_normalized (data : Bytes) (v : Value) (h : decode data = .ok v) :
    ∃ bytes, v.encode = .ok bytes ∧ bytes.length ≤ data.length ∧ decode bytes = .ok v ∧
      (decode bytes >>= Value.encode) = .ok bytes := by
  have hfront := decode_eq_ok.1 h
  obtain ⟨bytes, hbytes, hlength⟩ := Reader.Rewrites.value _ _ _ _ hfront
  have hordered := Reader.keyOrdered_of_value hfront
  have hreadable := readable_of_decode h
  have hback : decode bytes = .ok v := by
    rw [decode_encode hreadable hbytes, v.keyOrder_eq hordered]
  refine ⟨bytes, hbytes, ?_, hback, bind_eq_ok.2 ⟨v, hback, hbytes⟩⟩
  rw [List.length_nil] at hlength
  omega

/-- A mapping with a key that is repeated and out of order, a boolean of an unusual byte and a decimal
with ignored bits and a scale of thirty: what is left takes fewer bytes and says the same. -/
theorem decoded_is_normalized_repeated :
    let data : Bytes := [11, 3, 0, 0, 0, 1, 0, 98, 0, 1, 0, 97, 6, 1, 0, 30, 128, 105, 0, 0, 0, 0, 0, 0, 0,
      0, 0, 0, 0, 1, 0, 98, 3, 7]
    let v : Value := .mapping [
      ("a", .decimal { negative := true, mantissa := 2, scale := 28 }), ("b", .boolean true)]
    decode data = .ok v ∧ data.length = 34 ∧
      ∃ bytes, v.encode = .ok bytes ∧ bytes.length = 30 ∧ decode bytes = .ok v ∧
        (decode bytes >>= Value.encode) = .ok bytes := by
  intro data v
  have hdata : decode data = .ok v := by
    rfl
  obtain ⟨bytes, hbytes, -, hback, hagain⟩ := decoded_is_normalized data v hdata
  have hlength : bytes.length = 30 := by
    cases hbytes
    rfl
  exact ⟨hdata, rfl, bytes, hbytes, hlength, hback, hagain⟩

end RecordStore
