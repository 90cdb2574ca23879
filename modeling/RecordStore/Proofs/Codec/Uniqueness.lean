import RecordStore.Proofs.Codec.RoundTrip

/-!
# Encodings tell what was encoded

No two values have encodings of which one is at the front of the other, whether or not they can be read
back.  A value that can be read is told by its reader (`Reader.Takes.unique`); a time of day that cannot is
told by the reader of its parts, which asks nothing of them.  From there the proof goes along the value, with
whatever follows the encodings (`eq_of_encode_append`).  So a row has one list of columns that it was
written from (`encodeRow_injective`).
-/

namespace RecordStore

open Reader

/-! ## Readers -/

namespace Reader.Takes

variable {α : Type} {read : Reader α} {front front' rest rest' : Bytes} {a b : α}

/-- A reader takes one thing from the front of a byte string. -/
theorem unique (h : Takes read front a) (h' : Takes read front' b) (heq : front ++ rest = front' ++ rest') :
    a = b ∧ rest = rest' := by
  have hread := h rest
  rw [heq, h' rest'] at hread
  cases hread
  exact ⟨rfl, rfl⟩

/-- Nanoseconds behind something else: the parts of a time, whether or not a time is made of them. -/
theorem withNanos (h : Takes read front a) (t : TimeOfDay) :
    Takes (read >>= fun x => Reader.number 4 >>= fun nanos => Pure.pure (x, nanos))
      (front ++ littleEndian 4 t.nanos) (a, t.nanos) := by
  have hnanos := t.nanos_lt
  exact h.bind ((number .unexpectedEnd (by simp; omega)).map fun nanos => (a, nanos))

end Reader.Takes

/-! ## Times of day -/

variable {rest rest' : Bytes}

theorem time_unique {t t' : TimeOfDay}
    (h : littleEndian 4 t.seconds ++ littleEndian 4 t.nanos ++ rest =
      littleEndian 4 t'.seconds ++ littleEndian 4 t'.nanos ++ rest') : t = t' ∧ rest = rest' := by
  have hseconds : ∀ t : TimeOfDay, Takes (Reader.number 4) (littleEndian 4 t.seconds) t.seconds := by
    intro t
    have hlt := t.seconds_lt
    exact Takes.number .unexpectedEnd (by simp; omega)
  obtain ⟨hparts, hrest⟩ := ((hseconds t).withNanos t).unique ((hseconds t').withNanos t') h
  obtain ⟨hsame, hnanos⟩ := Prod.mk.inj hparts
  cases t
  cases t'
  cases hsame
  cases hnanos
  exact ⟨rfl, hrest⟩

theorem dateTime_unique {t t' : DateTime}
    (h : littleEndian 8 (Int64.ofInt t.unixSeconds).toUInt64.toNat ++ littleEndian 4 t.time.nanos ++ rest =
      littleEndian 8 (Int64.ofInt t'.unixSeconds).toUInt64.toNat ++ littleEndian 4 t'.time.nanos ++ rest') :
    t = t' ∧ rest = rest' := by
  obtain ⟨hparts, hrest⟩ := ((Takes.int64 (Int64.ofInt t.unixSeconds)).withNanos t.time).unique
    ((Takes.int64 (Int64.ofInt t'.unixSeconds)).withNanos t'.time) h
  obtain ⟨hsame, hnanos⟩ := Prod.mk.inj hparts
  have hunix := congrArg Int64.toInt hsame
  rw [Takes.toInt_unixSeconds, Takes.toInt_unixSeconds] at hunix
  obtain ⟨⟨day, _, _⟩, ⟨seconds, nanos, hlt, _⟩⟩ := t
  obtain ⟨⟨day', _, _⟩, ⟨seconds', nanos', hlt', _⟩⟩ := t'
  -- Seconds of the day and days are the rest and the quotient of the seconds since 1970.
  simp only [DateTime.unixSeconds] at hunix hnanos
  obtain rfl : day = day' := by omega
  obtain rfl : seconds = seconds' := by omega
  cases hnanos
  exact ⟨rfl, hrest⟩

/-! ## Values -/

theorem tag_eq_of_encode_append {v w : Value} {bytes bytes' : Bytes} (hv : v.encode = .ok bytes)
    (hw : w.encode = .ok bytes') (h : bytes ++ rest = bytes' ++ rest') : v.tag = w.tag := by
  obtain ⟨data, rfl⟩ := encode_eq_cons hv
  obtain ⟨data', rfl⟩ := encode_eq_cons hw
  have hbyte := congrArg Tag.ofByte? (List.cons.inj h).1
  rw [Tag.ofByte?_byte, Tag.ofByte?_byte] at hbyte
  exact Option.some.inj hbyte

/-- Values that can be read are told by the reader of values. -/
theorem eq_of_readable {v w : Value} {bytes bytes' : Bytes} (hv : v.encode = .ok bytes)
    (hw : w.encode = .ok bytes') (h : bytes ++ rest = bytes' ++ rest') (hreadable : v.Readable)
    (hreadable' : w.Readable) : v.keyOrder = w.keyOrder ∧ rest = rest' :=
  (takes_value (max bytes.length bytes'.length) v hreadable hv (Nat.le_max_left _ _)).unique
    (takes_value _ w hreadable' hw (Nat.le_max_right _ _)) h

/-- Encodings of containers tell the number of the items before the items. -/
theorem sized_unique {tag : UInt8} {count count' : Nat} {body body' : Except DataFault Bytes}
    {bytes bytes' : Bytes}
    (hv : (do
      let length ← encodeLength count
      let data ← body
      return tag :: (length ++ data)) = .ok bytes)
    (hw : (do
      let length ← encodeLength count'
      let data ← body'
      return tag :: (length ++ data)) = .ok bytes') (h : bytes ++ rest = bytes' ++ rest') :
    count = count' ∧ ∃ data data', body = .ok data ∧ body' = .ok data' ∧ data ++ rest = data' ++ rest' := by
  obtain ⟨data, hcount, hdata, rfl⟩ := of_encodeSized hv
  obtain ⟨data', hcount', hdata', rfl⟩ := of_encodeSized hw
  have hbytes : littleEndian 4 count ++ data ++ rest = littleEndian 4 count' ++ data' ++ rest' :=
    (List.cons.inj h).2
  rw [List.append_assoc, List.append_assoc] at hbytes
  obtain ⟨hsame, hitems⟩ :=
    (Takes.size .sequenceLength hcount).unique (Takes.size .sequenceLength hcount') hbytes
  exact ⟨hsame, data, data', hdata, hdata', hitems⟩

mutual

/-- Whatever stands behind their encodings, values with the same bytes are the same. -/
theorem eq_of_encode_append (v w : Value) {bytes bytes' rest rest' : Bytes} (hv : v.encode = .ok bytes)
    (hw : w.encode = .ok bytes') (h : bytes ++ rest = bytes' ++ rest') : v = w ∧ rest = rest' := by
  have htag := tag_eq_of_encode_append hv hw h
  cases v with
  | dateTime t =>
      cases w with
      | dateTime t' =>
          cases hv
          cases hw
          obtain ⟨rfl, hrest⟩ := dateTime_unique (List.cons.inj h).2
          exact ⟨rfl, hrest⟩
      | _ => cases htag
  | time t =>
      cases w with
      | time t' =>
          cases hv
          cases hw
          obtain ⟨rfl, hrest⟩ := time_unique (List.cons.inj h).2
          exact ⟨rfl, hrest⟩
      | _ => cases htag
  | list xs =>
      cases w with
      | list ys =>
          obtain ⟨hlength, data, data', hdata, hdata', hsame⟩ := sized_unique hv hw h
          obtain ⟨rfl, hrest⟩ := eq_of_encodeItems_append xs ys hdata hdata' hlength hsame
          exact ⟨rfl, hrest⟩
      | _ => cases htag
  | mapping xs =>
      cases w with
      | mapping ys =>
          obtain ⟨hlength, data, data', hdata, hdata', hsame⟩ := sized_unique hv hw h
          obtain ⟨rfl, hrest⟩ := eq_of_encodeEntries_append xs ys hdata hdata' hlength hsame
          exact ⟨rfl, hrest⟩
      | _ => cases htag
  | tuple xs =>
      cases w with
      | tuple ys =>
          obtain ⟨hlength, data, data', hdata, hdata', hsame⟩ := sized_unique hv hw h
          obtain ⟨rfl, hrest⟩ := eq_of_encodeItems_append xs ys hdata hdata' hlength hsame
          exact ⟨rfl, hrest⟩
      | _ => cases htag
  | set xs =>
      cases w with
      | set ys =>
          obtain ⟨hlength, data, data', hdata, hdata', hsame⟩ := sized_unique hv hw h
          obtain ⟨rfl, hrest⟩ := eq_of_encodeItems_append xs ys hdata hdata' hlength hsame
          exact ⟨rfl, hrest⟩
      | _ => cases htag
  | frozenSet xs =>
      cases w with
      | frozenSet ys =>
          obtain ⟨hlength, data, data', hdata, hdata', hsame⟩ := sized_unique hv hw h
          obtain ⟨rfl, hrest⟩ := eq_of_encodeItems_append xs ys hdata hdata' hlength hsame
          exact ⟨rfl, hrest⟩
      | _ => cases htag
  | _ =>
      -- Every other scalar can be read.
      cases w <;> first | exact eq_of_readable hv hw h trivial trivial | cases htag
termination_by structural v

theorem eq_of_encodeItems_append (xs ys : List Value) {data data' rest rest' : Bytes}
    (hxs : Value.encodeItems xs = .ok data) (hys : Value.encodeItems ys = .ok data')
    (hlength : xs.length = ys.length) (h : data ++ rest = data' ++ rest') : xs = ys ∧ rest = rest' := by
  cases xs with
  | nil =>
      obtain rfl := List.length_eq_zero_iff.1 hlength.symm
      cases hxs
      cases hys
      exact ⟨rfl, h⟩
  | cons x xs =>
      cases ys with
      | nil => cases hlength
      | cons y ys =>
          obtain ⟨first, data, hfirst, hdata, rfl⟩ := of_encodeItems_cons hxs
          obtain ⟨first', data', hfirst', hdata', rfl⟩ := of_encodeItems_cons hys
          rw [List.append_assoc, List.append_assoc] at h
          obtain ⟨rfl, hsame⟩ := eq_of_encode_append x y hfirst hfirst' h
          obtain ⟨rfl, hrest⟩ :=
            eq_of_encodeItems_append xs ys hdata hdata' (Nat.succ.inj hlength) hsame
          exact ⟨rfl, hrest⟩
termination_by structural xs

theorem eq_of_encodeEntries_append (xs ys : List (String × Value)) {data data' rest rest' : Bytes}
    (hxs : Value.encodeEntries xs = .ok data) (hys : Value.encodeEntries ys = .ok data')
    (hlength : xs.length = ys.length) (h : data ++ rest = data' ++ rest') : xs = ys ∧ rest = rest' := by
  cases xs with
  | nil =>
      obtain rfl := List.length_eq_zero_iff.1 hlength.symm
      cases hxs
      cases hys
      exact ⟨rfl, h⟩
  | cons entry xs =>
      cases ys with
      | nil => cases hlength
      | cons entry' ys =>
          obtain ⟨k, x⟩ := entry
          obtain ⟨l, y⟩ := entry'
          obtain ⟨first, data, hk, hfirst, hdata, rfl⟩ := of_encodeEntries_cons hxs
          obtain ⟨first', data', hl, hfirst', hdata', rfl⟩ := of_encodeEntries_cons hys
          rw [List.append_assoc _ _ rest, List.append_assoc _ _ rest'] at h
          obtain ⟨rfl, hvalues⟩ := (Takes.name hk).unique (Takes.name hl) h
          rw [List.append_assoc, List.append_assoc] at hvalues
          obtain ⟨rfl, hsame⟩ := eq_of_encode_append x y hfirst hfirst' hvalues
          obtain ⟨rfl, hrest⟩ :=
            eq_of_encodeEntries_append xs ys hdata hdata' (Nat.succ.inj hlength) hsame
          exact ⟨rfl, hrest⟩
termination_by structural xs

end

/-! ## Rows -/

/-- The bytes of a row tell its columns, whether or not it can be read. -/
theorem encodeRow_injective {columns others : List (String × Value)} {bytes : Bytes}
    (hcount : columns.length < 4294967296) (hcount' : others.length < 4294967296)
    (h : encodeRow columns = .ok bytes) (h' : encodeRow others = .ok bytes) : columns = others := by
  obtain ⟨data, hdata, h⟩ := bind_eq_ok.1 h
  obtain ⟨data', hdata', h'⟩ := bind_eq_ok.1 h'
  obtain ⟨hlength, hsame⟩ := (Takes.size .columnCount hcount).unique (Takes.size .columnCount hcount')
    ((pure_eq_ok.1 h).trans (pure_eq_ok.1 h').symm)
  exact (@eq_of_encodeEntries_append columns others data data' [] [] hdata hdata' hlength
    (by rw [hsame])).1

end RecordStore
