/-!
# Short codes

A short code writes a 128-bit identifier with 22 digits of a positional system, least significant digit
first.  The digits are letters and figures without lookalikes, so codes can be read out and typed in.

Twenty-two digits are enough: what is left of an identifier after them is zero
(`remainder_codeDigits`).
-/

namespace RecordStore

/-- The digits of short codes in order of their values. -/
def codeAlphabet : List Char :=
  ['2', '3', '4', '5', '6', '7', '8', '9', 'A', 'B', 'C', 'D', 'E', 'F', 'G', 'H', 'J', 'K', 'L', 'M',
    'N', 'P', 'Q', 'R', 'S', 'T', 'U', 'V', 'W', 'X', 'Y', 'Z', 'a', 'b', 'c', 'd', 'e', 'f', 'g', 'h',
    'i', 'j', 'k', 'm', 'n', 'o', 'p', 'q', 'r', 's', 't', 'u', 'v', 'w', 'x', 'y', 'z']

/-- The number of digits of the system. -/
def codeBase : Nat := 57

/-- The number of digits of a short code. -/
def codeLength : Nat := 22

/-- The low digits of a number, least significant first, and what is left of the number above them. -/
def codeDigits : (count : Nat) → (n : Nat) → List Nat × Nat
  | 0, n => ([], n)
  | count + 1, n =>
      let (digits, remainder) := codeDigits count (n / codeBase)
      (n % codeBase :: digits, remainder)

/-- The character of a digit. -/
def codeChar (digit : Nat) : Char :=
  codeAlphabet.getD digit '2'

/-- The short code of an identifier. -/
def shortCode (identifier : BitVec 128) : String :=
  String.ofList ((codeDigits codeLength identifier.toNat).1.map codeChar)

theorem length_codeAlphabet : codeAlphabet.length = codeBase := by decide

@[simp] theorem length_codeDigits (count n : Nat) : (codeDigits count n).1.length = count := by
  induction count generalizing n with
  | zero => rfl
  | succ count ih => simp [codeDigits, ih]

/-- Nothing is left of an identifier above the digits of its code. -/
theorem remainder_codeDigits (identifier : BitVec 128) :
    (codeDigits codeLength identifier.toNat).2 = 0 := by
  have h := identifier.isLt
  simp only [codeLength, codeDigits, codeBase]
  omega

end RecordStore
