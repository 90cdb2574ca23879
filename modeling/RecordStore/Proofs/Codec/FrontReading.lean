import RecordStore.Codec.Decoding
import RecordStore.Codec.Encoding
import RecordStore.Proofs.Bytes
import RecordStore.Proofs.Codec.Readability

/-!
# Readers that take known bytes

`Reader.Takes read front a` says that a reader takes exactly `front` from every byte string that
starts with it, whatever follows, and gives `a`.  `Reader.Rejects read front` says that it fails on every
such string.  The relations follow the way readers are put together (`Takes.pure`, `Takes.bind`,
`Takes.many_cons`), so a format is proved by walking through its reader once.

The main statements are the ones about scalars: each reader of a scalar takes the bytes that
encoding the scalar writes, or rejects them where the scalar is a time that cannot be read.
-/

namespace RecordStore

namespace Reader

/-- The reader takes exactly the given bytes, whatever stands behind them. -/
def Takes {α : Type} (read : Reader α) (front : Bytes) (a : α) : Prop :=
  ∀ rest : Bytes, read (front ++ rest) = .ok (a, rest)

namespace Takes

variable {α β : Type}

/-! ## Putting readers together -/

theorem pure (a : α) : Takes (Pure.pure a) [] a := by
  intro rest
  rfl

theorem bind {read : Reader α} {next : α → Reader β} {front front' : Bytes} {a : α} {b : β}
    (hread : Takes read front a) (hnext : Takes (next a) front' b) :
    Takes (read >>= next) (front ++ front') b := by
  intro rest
  have hfirst : read (front ++ (front' ++ rest)) = .ok (a, front' ++ rest) := hread _
  have hstep : (read >>= next) (front ++ front' ++ rest)
      = (read (front ++ front' ++ rest)) >>= fun p => next p.1 p.2 := rfl
  rw [hstep, List.append_assoc, hfirst]
  exact hnext rest

/-- A reader that only rearranges what another has read. -/
theorem map {read : Reader α} {front : Bytes} {a : α} (f : α → β) (hread : Takes read front a) :
    Takes (read >>= fun x => Pure.pure (f x)) front (f a) := by
  have h : Takes (read >>= fun x => Pure.pure (f x)) (front ++ []) (f a) := hread.bind (pure (f a))
  rwa [List.append_nil] at h

/-- The last reader takes nothing more. -/
theorem bindPure {read : Reader α} {next : α → Reader β} {front : Bytes} {a : α} {b : β}
    (hread : Takes read front a) (hnext : next a = Pure.pure b) :
    Takes (read >>= next) front b := by
  have hlast : Takes (next a) [] b := by
    rw [hnext]
    exact pure b
  have h : Takes (read >>= next) (front ++ []) b := hread.bind hlast
  rwa [List.append_nil] at h

theorem many_cons {read : Reader α} {count : Nat} {front front' : Bytes} {a : α} {as : List α}
    (hfirst : Takes read front a) (hrest : Takes (Reader.many read count) front' as) :
    Takes (Reader.many read (count + 1)) (front ++ front') (a :: as) :=
  hfirst.bind (hrest.map fun rest => a :: rest)

theorem skipMany_cons {read : Reader Unit} {count : Nat} {front front' : Bytes}
    (hfirst : Takes read front ()) (hrest : Takes (Reader.skipMany read count) front' ()) :
    Takes (Reader.skipMany read (count + 1)) (front ++ front') () :=
  hfirst.bind hrest

/-! ## Bytes and numbers -/

theorem bytes {count : Nat} {front : Bytes} (fault : DataFault) (h : front.length = count) :
    Takes (Reader.bytes count fault) front front := by
  intro rest
  subst h
  simp [Reader.bytes, splitFront?_eq]

theorem number {width n : Nat} (fault : DataFault) (h : n < 256 ^ width) :
    Takes (Reader.number width fault) (littleEndian width n) n := by
  have hbytes := bytes fault (length_littleEndian width n)
  have hread := hbytes.map ofLittleEndian
  rwa [ofLittleEndian_littleEndian, Nat.mod_eq_of_lt h] at hread

theorem size {n : Nat} (part : DataPart) (h : n < 4294967296) :
    Takes (Reader.size part) (littleEndian 4 n) n :=
  number (.tooShort part) (by simpa using h)

theorem tag (t : Tag) : Takes Reader.tag [t.byte] t := by
  intro rest
  simp [Reader.tag, Tag.ofByte?_byte]

/-! ## Texts -/

theorem name {s : String} (h : (textBytes s).length < 65536) :
    Takes Reader.name (littleEndian 2 (textBytes s).length ++ textBytes s) s := by
  refine (number .unexpectedEnd (by simpa using h)).bind ?_
  refine (bytes .unexpectedEnd rfl).bindPure ?_
  simp [bytesText?_textBytes]

theorem text {s : String} (h : (textBytes s).length < 4294967296) :
    Takes Reader.text (littleEndian 4 (textBytes s).length ++ textBytes s) s := by
  refine (size .textLength h).bind ?_
  refine (bytes .unexpectedEnd rfl).bindPure ?_
  simp [bytesText?_textBytes]

theorem blob {b : Bytes} (h : b.length < 4294967296) :
    Takes Reader.blob (littleEndian 4 b.length ++ b) b :=
  (size .bytesLength h).bind (bytes .unexpectedEnd rfl)

/-! ## Scalars -/

theorem int64 (n : Int64) : Takes Reader.int64 (littleEndian 8 n.toUInt64.toNat) n := by
  have hlt : n.toUInt64.toNat < 256 ^ 8 := by simpa using n.toUInt64.toNat_lt
  have hread := (number .unexpectedEnd hlt).map fun k => (UInt64.ofNat k).toInt64
  rwa [UInt64.ofNat_toNat, Int64.toInt64_toUInt64] at hread

theorem float (x : Float64) :
    Takes (Reader.number 8) (littleEndian 8 x.bits.toNat) x.bits.toNat :=
  number .unexpectedEnd (by simpa using x.bits.toNat_lt)

theorem decimal (d : Decimal) : Takes Reader.decimal (encodeDecimal d) d := by
  have hscale := d.scale_le
  have hmantissa := d.mantissa_lt
  have hflags : d.flags < 256 ^ 4 := by
    unfold Decimal.flags
    cases d.negative <;> simp <;> omega
  refine (number .unexpectedEnd hflags).bind ?_
  refine (number (n := d.mantissa) .unexpectedEnd (by simpa using hmantissa)).bindPure ?_
  -- Sign and scale stand in different bits of the flags.
  have hsign : (d.flags / 2147483648 % 2 == 1) = d.negative := by
    unfold Decimal.flags
    cases d.negative with
    | false =>
        have : d.scale * 65536 / 2147483648 = 0 := by omega
        simp [this]
    | true =>
        have : (d.scale * 65536 + 2147483648) / 2147483648 = 1 := by omega
        simp [this]
  have hbits : d.flags / 65536 % 32 = d.scale := by
    unfold Decimal.flags
    cases d.negative <;> simp <;> omega
  have hread : Decimal.ofFlags d.flags (d.mantissa % 79228162514264337593543950336)
      (Nat.mod_lt _ (by decide)) = d := by
    simp [Decimal.ofFlags, hsign, hbits, hscale, Nat.mod_eq_of_lt hmantissa]
  exact congrArg Pure.pure hread

theorem date (d : Date) :
    Takes Reader.date (littleEndian 4 (Int32.ofInt d.day).toUInt32.toNat) d := by
  have hge := d.day_ge
  have hle := d.day_le
  have hlt : (Int32.ofInt d.day).toUInt32.toNat < 256 ^ 4 := by
    simpa using (Int32.ofInt d.day).toUInt32.toNat_lt
  have hday : (Int32.ofInt d.day).toInt = d.day :=
    Int32.toInt_ofInt_of_le (by omega) (by omega)
  refine (number .unexpectedEnd hlt).bindPure ?_
  simp [Date.ofDay?, hday, hge, hle]

theorem time {t : TimeOfDay} (h : t.Readable) :
    Takes Reader.time (littleEndian 4 t.seconds ++ littleEndian 4 t.nanos) t := by
  have hseconds := t.seconds_lt
  have hnanos := t.nanos_lt
  refine (number .unexpectedEnd (by simp; omega)).bind ?_
  refine (number .unexpectedEnd (by simp; omega)).bindPure ?_
  simp only [TimeOfDay.ofParts?_eq, if_pos h]

/-- The seconds since 1970 of a date with time fit into 64 bits. -/
theorem toInt_unixSeconds (t : DateTime) :
    (Int64.ofInt t.unixSeconds).toInt = t.unixSeconds := by
  have hge := t.date.day_ge
  have hle := t.date.day_le
  have hlt := t.time.seconds_lt
  refine Int64.toInt_ofInt_of_le ?_ ?_ <;>
    unfold DateTime.unixSeconds DateTime.epochDay <;> omega

theorem dateTime {t : DateTime} (h : t.time.Readable) :
    Takes Reader.dateTime
      (littleEndian 8 (Int64.ofInt t.unixSeconds).toUInt64.toNat ++ littleEndian 4 t.time.nanos)
        t := by
  have hnanos := t.time.nanos_lt
  refine (int64 (Int64.ofInt t.unixSeconds)).bind ?_
  refine (number (n := t.time.nanos) .unexpectedEnd (by simp; omega)).bindPure ?_
  simp only [toInt_unixSeconds, DateTime.ofUnix?_eq, if_pos h]

end Takes

/-! ## Bytes that are rejected -/

/-- The reader fails on the given bytes, whatever stands behind them. -/
def Rejects {α : Type} (read : Reader α) (front : Bytes) : Prop :=
  ∃ fault, ∀ rest : Bytes, read (front ++ rest) = .error fault

section

variable {α β : Type} {read : Reader α} {next : α → Reader β} {front front' : Bytes} {a : α}

theorem Rejects.bind (h : Rejects read front) (more : Bytes) : Rejects (read >>= next) (front ++ more) := by
  obtain ⟨fault, hfault⟩ := h
  refine ⟨fault, fun rest => ?_⟩
  have hstep : (read >>= next) (front ++ more ++ rest)
      = (read (front ++ more ++ rest)) >>= fun p => next p.1 p.2 := rfl
  rw [hstep, List.append_assoc, hfault]
  rfl

theorem Takes.bindRejects (hread : Takes read front a) (hnext : Rejects (next a) front') :
    Rejects (read >>= next) (front ++ front') := by
  obtain ⟨fault, hfault⟩ := hnext
  refine ⟨fault, fun rest => ?_⟩
  have hstep : (read >>= next) (front ++ front' ++ rest)
      = (read (front ++ front' ++ rest)) >>= fun p => next p.1 p.2 := rfl
  rw [hstep, List.append_assoc, hread]
  exact hfault rest

theorem Rejects.map (f : α → β) (h : Rejects read front) :
    Rejects (read >>= fun x => Pure.pure (f x)) front := by
  have hread : Rejects (read >>= fun x => Pure.pure (f x)) (front ++ []) := h.bind []
  rwa [List.append_nil] at hread

/-- The reader fails once the bytes are taken. -/
theorem Takes.bindFail (fault : DataFault) (hread : Takes read front a)
    (hnext : next a = Reader.fail fault) : Rejects (read >>= next) front := by
  have hlast : Rejects (next a) [] := by
    rw [hnext]
    exact ⟨fault, fun _ => rfl⟩
  have h : Rejects (read >>= next) (front ++ []) := hread.bindRejects hlast
  rwa [List.append_nil] at h

/-! ## Times that cannot be read -/

theorem rejects_time {t : TimeOfDay} (h : ¬t.Readable) :
    Rejects Reader.time (littleEndian 4 t.seconds ++ littleEndian 4 t.nanos) := by
  have hseconds := t.seconds_lt
  have hnanos := t.nanos_lt
  refine (Takes.number .unexpectedEnd (by simp; omega)).bindRejects ?_
  refine Takes.bindFail (.invalidTime t.seconds) (Takes.number .unexpectedEnd (by simp; omega)) ?_
  simp only [TimeOfDay.ofParts?_eq, if_neg h]

theorem rejects_dateTime {t : DateTime} (h : ¬t.time.Readable) :
    Rejects Reader.dateTime
      (littleEndian 8 (Int64.ofInt t.unixSeconds).toUInt64.toNat ++ littleEndian 4 t.time.nanos) := by
  have hnanos := t.time.nanos_lt
  refine (Takes.int64 (Int64.ofInt t.unixSeconds)).bindRejects ?_
  refine Takes.bindFail (.invalidDateTime t.unixSeconds)
    (Takes.number (n := t.time.nanos) .unexpectedEnd (by simp; omega)) ?_
  simp only [Takes.toInt_unixSeconds, DateTime.ofUnix?_eq, if_neg h]

end

end Reader

end RecordStore
