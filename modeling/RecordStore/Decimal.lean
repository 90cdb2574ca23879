import RecordStore.Text.Digits

/-!
# Fixed-point decimals

A decimal is a sign, a mantissa of at most 96 bits and a scale of at most 28, the number of its digits
after the point.  Sign and scale are kept as given: `1.0` and `1.00` are different decimals of equal
value, and a zero may be negative.

The packed form has four 32-bit words: flags (sign in bit 31, scale in bits 16 to 20), then the
mantissa, lowest word first.  Reading a packed form accepts every value of the words: other bits of the
flags are ignored, and a scale above 28 is reduced to 28.
-/

namespace RecordStore

/-- A fixed-point decimal. -/
structure Decimal where
  negative : Bool
  mantissa : Nat
  scale : Nat
  mantissa_lt : mantissa < 79228162514264337593543950336 := by decide
  scale_le : scale ≤ 28 := by decide
deriving DecidableEq

namespace Decimal

instance : Inhabited Decimal := ⟨{ negative := false, mantissa := 0, scale := 0 }⟩

/-- The decimal with the given parts; nothing when the mantissa or the scale is out of range. -/
def ofParts? (negative : Bool) (mantissa scale : Nat) : Option Decimal :=
  if hm : mantissa < 79228162514264337593543950336 then
    if hs : scale ≤ 28 then some ⟨negative, mantissa, scale, hm, hs⟩ else none
  else none

/-- An integer, as a decimal of scale zero. -/
def ofInt64 (n : Int64) : Decimal where
  negative := decide (n.toInt < 0)
  mantissa := n.toInt.natAbs
  scale := 0
  mantissa_lt := by
    have h₁ := Int64.le_toInt n
    have h₂ := Int64.toInt_lt n
    omega

/-- Numeric equality: the scale does not count, nor does the sign of a zero. -/
def equals (a b : Decimal) : Bool :=
  a.mantissa * Nat.pow 10 b.scale == b.mantissa * Nat.pow 10 a.scale &&
    (a.negative == b.negative || a.mantissa == 0)

/-! ## Normal form -/

/-- Mantissa and scale without the trailing zeros after the point. -/
def dropTrailingZeros (mantissa : Nat) : Nat → Nat × Nat
  | 0 => (mantissa, 0)
  | scale + 1 =>
      if mantissa % 10 = 0 then dropTrailingZeros (mantissa / 10) scale else (mantissa, scale + 1)

theorem dropTrailingZeros_le (mantissa scale : Nat) :
    (dropTrailingZeros mantissa scale).1 ≤ mantissa ∧
      (dropTrailingZeros mantissa scale).2 ≤ scale := by
  induction scale generalizing mantissa with
  | zero => simp [dropTrailingZeros]
  | succ scale ih =>
      by_cases h : mantissa % 10 = 0
      · have hrest := ih (mantissa / 10)
        have hdiv := Nat.div_le_self mantissa 10
        simp only [dropTrailingZeros, h, if_true]
        omega
      · simp [dropTrailingZeros, h]

/-- The decimal of equal value with the smallest scale; a zero becomes the positive zero of scale
zero. -/
def normalize (d : Decimal) : Decimal :=
  if d.mantissa = 0 then { negative := false, mantissa := 0, scale := 0 }
  else
    { negative := d.negative
      mantissa := (dropTrailingZeros d.mantissa d.scale).1
      scale := (dropTrailingZeros d.mantissa d.scale).2
      mantissa_lt :=
        Nat.lt_of_le_of_lt (dropTrailingZeros_le d.mantissa d.scale).1 d.mantissa_lt
      scale_le := Nat.le_trans (dropTrailingZeros_le d.mantissa d.scale).2 d.scale_le }

/-! ## Packed form -/

/-- The flags of the packed form. -/
def flags (d : Decimal) : Nat :=
  d.scale * 65536 + if d.negative then 2147483648 else 0

/-- Divides a mantissa by a power of ten, and adds one when the remainder is at least five. -/
def reduceMantissa (mantissa places : Nat) : Nat :=
  mantissa / Nat.pow 10 places + if 5 ≤ mantissa % Nat.pow 10 places then 1 else 0

theorem reduceMantissa_le (mantissa places : Nat) : reduceMantissa mantissa places ≤ mantissa := by
  have hpos : 0 < Nat.pow 10 places := Nat.pow_pos (by decide)
  unfold reduceMantissa
  generalize Nat.pow 10 places = p at hpos
  by_cases h : 5 ≤ mantissa % p
  · have hmod := Nat.mod_lt mantissa hpos
    have hp : 2 ≤ p := by omega
    have hle : p ≤ mantissa ∨ mantissa < p := Nat.lt_or_ge mantissa p |>.symm
    simp only [h, if_true]
    rcases hle with hle | hlt
    · have := Nat.div_lt_self (by omega : 0 < mantissa) (by omega : 1 < p)
      omega
    · rw [Nat.div_eq_of_lt hlt]
      rw [Nat.mod_eq_of_lt hlt] at h
      omega
  · simp only [h, if_false]
    exact Nat.div_le_self mantissa p

/-- The decimal of a packed form, given as flags and mantissa. -/
def ofFlags (flags mantissa : Nat) (h : mantissa < 79228162514264337593543950336) : Decimal :=
  -- Bit 31 is the sign and bits 16 to 20 are the scale; the other bits say nothing.
  let negative := flags / 2147483648 % 2 == 1
  let scale := flags / 65536 % 32
  if hs : scale ≤ 28 then ⟨negative, mantissa, scale, h, hs⟩
  else
    ⟨negative, reduceMantissa mantissa (scale - 28), 28,
      Nat.lt_of_le_of_lt (reduceMantissa_le mantissa (scale - 28)) h, Nat.le_refl 28⟩

/-! ## Text -/

/-- The text of a decimal: as many digits after the point as the scale says. -/
def toText (d : Decimal) : String :=
  (if d.negative then "-" else "") ++ pointText d.mantissa d.scale

/-- The number that decimal digits write. -/
def digitsValue (digits : List Char) : Nat :=
  digits.foldl (fun n digit => n * 10 + (digit.toNat - 48)) 0

/-- The decimal that a text writes: an optional minus sign, digits, and a point before as many digits as the
scale says. -/
def ofText? (text : String) : Option Decimal :=
  let negative := text.toList.head? == some '-'
  let digits := if negative then text.toList.drop 1 else text.toList
  let whole := digits.takeWhile Char.isDigit
  let fraction :=
    match digits.drop whole.length with
    | '.' :: fraction => fraction
    | _ => []
  if digits.all (fun c => c.isDigit || c == '.') then
    ofParts? negative (digitsValue (whole ++ fraction)) fraction.length
  else none

end Decimal

end RecordStore
