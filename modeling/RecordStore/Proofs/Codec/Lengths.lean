import RecordStore.Proofs.Codec.RoundTrip
import RecordStore.Proofs.Codec.Skipping

/-!
# Lengths of texts and byte strings

A text or a byte string is written after its length, in 32 bits.  So every value that was written or read
has texts and byte strings that are short enough (`Value.FitsLength`), whatever the bytes were that it was
read from.  What is read is as long as the bytes that it takes behind its length (`Reader.of_text`,
`Reader.of_blob`, `Reader.of_name`).
-/

namespace RecordStore

/-- A text or a byte string is short enough to be written after its length. -/
def Value.FitsLength : Value → Prop
  | .text s => (textBytes s).length < 4294967296
  | .bytes b => b.length < 4294967296
  | _ => True

/-! ## What is written -/

theorem fitsLength_of_encode {value : Value} {bytes : Bytes} (h : value.encode = .ok bytes) :
    value.FitsLength := by
  cases value with
  | text s | bytes b => exact (of_encodeText h).1
  | _ => trivial

theorem fitsLength_of_encodeEntries {columns : List (String × Value)} {data : Bytes}
    (h : Value.encodeEntries columns = .ok data) : ∀ entry ∈ columns, entry.2.FitsLength := by
  induction columns generalizing data with
  | nil => simp
  | cons entry rest ih =>
      obtain ⟨_, _, -, hfirst, hrest, -⟩ := of_encodeEntries_cons h
      exact List.forall_mem_cons.2 ⟨fitsLength_of_encode hfirst, ih hrest⟩

/-! ## What is read -/

theorem textBytes_of_bytesText? {bytes : Bytes} {s : String} (h : bytesText? bytes = some s) :
    textBytes s = bytes := by
  unfold bytesText? String.fromUTF8? at h
  split at h
  · cases h
    rfl
  · cases h

namespace Reader

variable {α : Type} {data rest : Bytes}

theorem of_bytes {count : Nat} {fault : DataFault} {front : Bytes}
    (h : bytes count fault data = .ok (front, rest)) :
    front.length = count ∧ data.length = count + rest.length := by
  by_cases hcount : count ≤ data.length
  · simp only [bytes, splitFront?_eq, if_pos hcount] at h
    cases h
    rw [List.length_take, List.length_drop]
    omega
  · simp only [bytes, splitFront?_eq, if_neg hcount] at h
    cases h

theorem of_number {width n : Nat} {fault : DataFault} (h : number width fault data = .ok (n, rest)) :
    n < 256 ^ width ∧ data.length = width + rest.length := by
  obtain ⟨front, _, hfront, hlast⟩ := bind_eq_ok_iff.1 h
  cases hlast
  obtain ⟨hwidth, hlength⟩ := of_bytes hfront
  have hlt := ofLittleEndian_lt front
  rw [hwidth] at hlt
  exact ⟨hlt, hlength⟩

/-- A text that was read from bytes has just these bytes. -/
theorem of_decoded {length : Nat} {fault : DataFault} {s : String}
    (h : (do
      let front ← bytes length
      match bytesText? front with
      | some text => return text
      | none => Reader.fail fault : Reader String) data = .ok (s, rest)) :
    (textBytes s).length = length ∧ data.length = length + rest.length := by
  obtain ⟨front, _, hfront, h⟩ := bind_eq_ok_iff.1 h
  cases hread : bytesText? front with
  | none =>
      rw [hread] at h
      cases h
  | some found =>
      rw [hread] at h
      cases h
      rw [textBytes_of_bytesText? hread]
      exact of_bytes hfront

theorem of_name {k : String} (h : name data = .ok (k, rest)) :
    (textBytes k).length < 65536 ∧ data.length = 2 + (textBytes k).length + rest.length := by
  obtain ⟨count, _, hcount, htext⟩ := bind_eq_ok_iff.1 h
  obtain ⟨hlt, hbefore⟩ := of_number hcount
  obtain ⟨rfl, hbehind⟩ := of_decoded htext
  exact ⟨hlt, by omega⟩

theorem of_text {s : String} (h : text data = .ok (s, rest)) :
    (textBytes s).length < 4294967296 ∧ data.length = 4 + (textBytes s).length + rest.length := by
  obtain ⟨count, _, hcount, htext⟩ := bind_eq_ok_iff.1 h
  obtain ⟨hlt, hbefore⟩ := of_number hcount
  obtain ⟨rfl, hbehind⟩ := of_decoded htext
  exact ⟨hlt, by omega⟩

theorem of_blob {b : Bytes} (h : blob data = .ok (b, rest)) :
    b.length < 4294967296 ∧ data.length = 4 + b.length + rest.length := by
  obtain ⟨count, _, hcount, hfront⟩ := bind_eq_ok_iff.1 h
  obtain ⟨hlt, hbefore⟩ := of_number hcount
  obtain ⟨rfl, hbehind⟩ := of_bytes hfront
  exact ⟨hlt, by omega⟩

theorem fitsLength_of_value {depth : Nat} {v : Value} (h : value depth data = .ok (v, rest)) :
    v.FitsLength := by
  cases depth with
  | zero => cases h
  | succ depth =>
      obtain ⟨t, _, -, h⟩ := bind_eq_ok_iff.1 h
      cases t with
      | null =>
          cases h
          trivial
      | text =>
          obtain ⟨s, _, htext, hlast⟩ := bind_eq_ok_iff.1 h
          cases hlast
          exact (of_text htext).1
      | bytes =>
          obtain ⟨b, _, hblob, hlast⟩ := bind_eq_ok_iff.1 h
          cases hlast
          exact (of_blob hblob).1
      | list | mapping | tuple | set | frozenSet =>
          obtain ⟨_, _, -, hitems⟩ := bind_eq_ok_iff.1 h
          obtain ⟨_, _, -, hlast⟩ := bind_eq_ok_iff.1 hitems
          cases hlast
          trivial
      | _ =>
          obtain ⟨_, _, -, hlast⟩ := bind_eq_ok_iff.1 h
          cases hlast
          trivial

theorem length_of_many {read : Reader α} {count : Nat} {as : List α}
    (h : many read count data = .ok (as, rest)) : as.length = count := by
  induction count generalizing data as with
  | zero =>
      cases h
      rfl
  | succ count ih =>
      obtain ⟨first, _, -, hmore⟩ := bind_eq_ok_iff.1 h
      obtain ⟨others, _, hothers, hlast⟩ := bind_eq_ok_iff.1 hmore
      cases hlast
      rw [List.length_cons, ih hothers]

/-- What holds of everything that is read holds of each of many. -/
theorem forall_mem_of_many {read : Reader α} {holds : α → Prop}
    (hread : ∀ data rest a, read data = .ok (a, rest) → holds a) {count : Nat} {as : List α}
    (h : many read count data = .ok (as, rest)) : ∀ a ∈ as, holds a := by
  induction count generalizing data as with
  | zero =>
      cases h
      simp
  | succ count ih =>
      obtain ⟨first, _, hfirst, hmore⟩ := bind_eq_ok_iff.1 h
      obtain ⟨others, _, hothers, hlast⟩ := bind_eq_ok_iff.1 hmore
      cases hlast
      exact List.forall_mem_cons.2 ⟨hread _ _ _ hfirst, ih hothers⟩

end Reader

theorem fitsLength_of_decodeRow {data : Bytes} {columns : List (String × Value)}
    (h : decodeRow data = .ok columns) : ∀ entry ∈ columns, entry.2.FitsLength := by
  obtain ⟨⟨_, rest⟩, hrow, hlast⟩ := bind_eq_ok.1 h
  cases hlast
  obtain ⟨count, _, -, hcolumns⟩ := Reader.bind_eq_ok_iff.1 hrow
  refine Reader.forall_mem_of_many ?_ hcolumns
  intro data rest entry hentry
  obtain ⟨found, _, -, hvalue⟩ := Reader.bind_eq_ok_iff.1 hentry
  obtain ⟨x, _, hvalue, hlast⟩ := Reader.bind_eq_ok_iff.1 hvalue
  cases hlast
  exact Reader.fitsLength_of_value hvalue

end RecordStore
