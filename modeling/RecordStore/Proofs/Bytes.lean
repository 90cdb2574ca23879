import Mathlib.Algebra.Group.Nat.Defs
import RecordStore.Bytes

/-!
# Numbers and texts in byte strings

A number that fits into a width is read back from its bytes, and every byte string is that of the
number read from it.  Different texts have different bytes, and the bytes of one text are at the front of
those of another exactly when its characters are (`textBytes_prefix_iff`).
-/

namespace RecordStore

/-! ## Numbers -/

theorem ofLittleEndian_littleEndian (width n : Nat) :
    ofLittleEndian (littleEndian width n) = n % 256 ^ width := by
  induction width generalizing n with
  | zero => simp [littleEndian, ofLittleEndian, Nat.mod_one]
  | succ width ih =>
      have hbyte : (UInt8.ofNat n).toNat = n % 256 := by simp
      rw [littleEndian, ofLittleEndian, hbyte, ih, Nat.pow_succ, Nat.mul_comm (256 ^ width)]
      exact Nat.mod_mul.symm

theorem ofBigEndian_bigEndian {width n : Nat} (h : n < 256 ^ width) :
    ofBigEndian (bigEndian width n) = n := by
  rw [ofBigEndian, bigEndian, List.reverse_reverse, ofLittleEndian_littleEndian]
  exact Nat.mod_eq_of_lt h

theorem littleEndian_ofLittleEndian (bytes : Bytes) :
    littleEndian bytes.length (ofLittleEndian bytes) = bytes := by
  induction bytes with
  | nil => rfl
  | cons byte rest ih =>
      have hbyte := byte.toNat_lt
      have hlow : UInt8.ofNat (byte.toNat + 256 * ofLittleEndian rest) = byte := by
        rw [← UInt8.toNat_inj, UInt8.toNat_ofNat']
        omega
      have hhigh : (byte.toNat + 256 * ofLittleEndian rest) / 256 = ofLittleEndian rest := by
        omega
      rw [List.length_cons, ofLittleEndian, littleEndian, hlow, hhigh, ih]

theorem ofLittleEndian_lt (bytes : Bytes) : ofLittleEndian bytes < 256 ^ bytes.length := by
  induction bytes with
  | nil => exact Nat.one_pos
  | cons byte rest ih =>
      have hbyte := byte.toNat_lt
      rw [List.length_cons, ofLittleEndian, Nat.pow_succ]
      omega

/-! ## Texts -/

theorem textBytes_injective {a b : String} (h : textBytes a = textBytes b) : a = b := by
  have hback := congrArg bytesText? h
  rw [bytesText?_textBytes, bytesText?_textBytes] at hback
  exact Option.some.inj hback

theorem textBytes_eq_flatMap (text : String) :
    textBytes text = text.toList.flatMap String.utf8EncodeChar := by
  unfold textBytes
  rw [show text.toUTF8 = text.toList.utf8Encode from String.utf8Encode_toList.symm]
  simp [List.utf8Encode]

/-- What follows the bytes of characters in the bytes of a text are the bytes of characters. -/
theorem exists_chars_of_isValidUTF8_append {front : List Char} {rest : Bytes}
    (h : (front.flatMap String.utf8EncodeChar ++ rest).toByteArray.IsValidUTF8) :
    ∃ back : List Char, rest = back.flatMap String.utf8EncodeChar := by
  induction front with
  | nil =>
      obtain ⟨back, hback⟩ := h
      exact ⟨back, by simpa [List.utf8Encode] using hback⟩
  | cons c front ih =>
      rw [List.flatMap_cons, List.append_assoc, List.toByteArray_append, ← List.utf8Encode_singleton,
        ByteArray.isValidUTF8_utf8Encode_singleton_append_iff] at h
      exact ih h

theorem textBytes_prefix_iff {a b : String} :
    textBytes a <+: textBytes b ↔ a.toList <+: b.toList := by
  rw [textBytes_eq_flatMap, textBytes_eq_flatMap]
  constructor
  · rintro ⟨rest, hrest⟩
    have hvalid := b.isValidUTF8
    rw [← String.utf8Encode_toList, List.utf8Encode, ← hrest] at hvalid
    obtain ⟨back, rfl⟩ := exists_chars_of_isValidUTF8_append hvalid
    rw [← List.flatMap_append] at hrest
    have hwhole : String.ofList (a.toList ++ back) = b := by
      apply textBytes_injective
      rw [textBytes_eq_flatMap, textBytes_eq_flatMap, String.toList_ofList, hrest]
    rw [← hwhole, String.toList_ofList]
    exact List.prefix_append _ _
  · rintro ⟨back, hback⟩
    rw [← hback, List.flatMap_append]
    exact List.prefix_append _ _

end RecordStore
