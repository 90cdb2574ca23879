/-!
# Byte strings

Byte strings are lists of bytes.  This file fixes how numbers and texts are laid out in them: numbers
in a fixed number of bytes, least or most significant byte first, and texts as UTF-8.
-/

namespace RecordStore

/-- A byte string. -/
abbrev Bytes : Type := List UInt8

/-! ## Numbers -/

/-- The low bytes of a number in a given width, least significant first. -/
def littleEndian : (width : Nat) → Nat → Bytes
  | 0, _ => []
  | width + 1, n => UInt8.ofNat n :: littleEndian width (n / 256)

/-- The number whose bytes are given least significant first. -/
def ofLittleEndian : Bytes → Nat
  | [] => 0
  | byte :: rest => byte.toNat + 256 * ofLittleEndian rest

/-- The low bytes of a number in a given width, most significant first. -/
def bigEndian (width n : Nat) : Bytes :=
  (littleEndian width n).reverse

/-- The number whose bytes are given most significant first. -/
def ofBigEndian (bytes : Bytes) : Nat :=
  ofLittleEndian bytes.reverse

@[simp] theorem length_littleEndian (width n : Nat) : (littleEndian width n).length = width := by
  induction width generalizing n with
  | zero => rfl
  | succ width ih => simp [littleEndian, ih]

@[simp] theorem length_bigEndian (width n : Nat) : (bigEndian width n).length = width := by
  simp [bigEndian]

/-! ## Hexadecimal notation -/

/-- The hexadecimal digit of a number below sixteen. -/
def hexDigit (n : Nat) : Char :=
  Nat.digitChar n

/-- The value of a hexadecimal digit in lower case. -/
def hexValue? (c : Char) : Option Nat :=
  if '0' ≤ c ∧ c ≤ '9' then some (c.toNat - 48)
  else if 'a' ≤ c ∧ c ≤ 'f' then some (c.toNat - 87)
  else none

/-- The two digits of each byte. -/
def hexDigits (bytes : Bytes) : List Char :=
  bytes.flatMap fun byte => [hexDigit (byte.toNat / 16), hexDigit (byte.toNat % 16)]

/-- The bytes of pairs of digits. -/
def ofHexDigits? : List Char → Option Bytes
  | [] => some []
  | [_] => none
  | high :: low :: rest => do
      let byte := UInt8.ofNat ((← hexValue? high) * 16 + (← hexValue? low))
      return byte :: (← ofHexDigits? rest)

/-- A byte string in hexadecimal notation. -/
def bytesHex (bytes : Bytes) : String :=
  String.ofList (hexDigits bytes)

/-- The byte string that is written in hexadecimal notation. -/
def ofHex? (text : String) : Option Bytes :=
  ofHexDigits? text.toList

/-! ## Texts -/

/-- The UTF-8 bytes of a text. -/
def textBytes (text : String) : Bytes :=
  text.toUTF8.data.toList

/-- The text with the given UTF-8 bytes; nothing when they are not well-formed UTF-8. -/
def bytesText? (bytes : Bytes) : Option String :=
  String.fromUTF8? ⟨bytes.toArray⟩

/-- Every text is read back from its bytes. -/
theorem bytesText?_textBytes (text : String) : bytesText? (textBytes text) = some text := by
  have h : (⟨(textBytes text).toArray⟩ : ByteArray) = text.toByteArray := by
    simp [textBytes, String.toUTF8]
  simp only [bytesText?, h, String.fromUTF8?, text.isValidUTF8, dite_true]
  rfl

end RecordStore
