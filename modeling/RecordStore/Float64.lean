import RecordStore.Text.Digits

/-!
# Binary floating-point numbers

Numbers of the IEEE binary64 format, kept as their 64 bits so that the sign of zero and the payload of
a not-a-number survive.  The file gives numeric equality, the nearest number to an integer, and the
decimal text of a number.

The text has the fewest digits that still read back as the number, without an exponent: of all
multiples of powers of ten that round to the number, those of the largest power are taken
(`Float64.shortestDecimal?`), of two such multiples the nearer, and of two equally near ones the
larger.
-/

namespace RecordStore

/-- A binary64 number, given by its bits. -/
structure Float64 where
  bits : UInt64
deriving DecidableEq, Inhabited

namespace Float64

/-! ## Fields and classes -/

/-- Whether the sign bit is set. -/
def isNegative (x : Float64) : Bool :=
  decide (9223372036854775808 ≤ x.bits.toNat)

/-- The eleven bits of the exponent. -/
def exponentField (x : Float64) : Nat :=
  x.bits.toNat / 4503599627370496 % 2048

/-- The 52 bits of the fraction. -/
def fraction (x : Float64) : Nat :=
  x.bits.toNat % 4503599627370496

/-- Whether this is no number. -/
def isNaN (x : Float64) : Bool :=
  x.exponentField == 2047 && x.fraction != 0

/-- Whether this is one of the two infinities. -/
def isInfinite (x : Float64) : Bool :=
  x.exponentField == 2047 && x.fraction == 0

/-- Whether this is one of the two zeros. -/
def isZero (x : Float64) : Bool :=
  x.exponentField == 0 && x.fraction == 0

/-- Numeric equality: the two zeros are equal, and a not-a-number equals nothing. -/
def equals (x y : Float64) : Bool :=
  !x.isNaN && !y.isNaN && (x.bits == y.bits || (x.isZero && y.isZero))

/-- The positive zero. -/
def zero : Float64 := ⟨0⟩

/-- The number with the sign of a zero forgotten. -/
def forgetZeroSign (x : Float64) : Float64 :=
  if x.isZero then zero else x

/-! ## Integers -/

/-- A number divided by a power of two and rounded to the nearest integer, a half to the even one. -/
def shiftRightHalfEven (n shift : Nat) : Nat :=
  let quotient := n >>> shift
  let twice := 2 * (n % (1 <<< shift))
  let unit := 1 <<< shift
  if unit < twice || (twice == unit && quotient % 2 == 1) then quotient + 1 else quotient

/-- The bits of the number nearest to a natural number below the overflow limit.  A rounded mantissa
that reaches the next power of two carries into the exponent field, as it should. -/
def magnitudeBits (n : Nat) : Nat :=
  if n = 0 then 0
  else
    let exponent := n.log2
    -- The mantissa has 53 bits; its leading bit adds one to the exponent field.
    let mantissa :=
      if exponent ≤ 52 then n <<< (52 - exponent) else shiftRightHalfEven n (exponent - 52)
    (exponent + 1023) * 4503599627370496 + mantissa - 4503599627370496

/-- The number nearest to an integer; of two equally near ones that with an even mantissa. -/
def ofInt64 (n : Int64) : Float64 :=
  let sign := if n.toInt < 0 then 9223372036854775808 else 0
  ⟨UInt64.ofNat (sign + magnitudeBits n.toInt.natAbs)⟩

/-! ## Text -/

/-- The finite positive magnitude `mantissa · 2 ^ exponent`. -/
structure Magnitude where
  mantissa : Nat
  exponent : Int
  /-- Whether the next smaller number is only half as far away as the next larger one. -/
  narrowBelow : Bool

/-- The magnitude of a finite number that is not zero. -/
def magnitude (x : Float64) : Magnitude :=
  if x.exponentField = 0 then ⟨x.fraction, -1074, false⟩
  else
    ⟨4503599627370496 + x.fraction, (x.exponentField : Int) - 1075,
      x.fraction == 0 && 1 < x.exponentField⟩

/-- The multiple of `10 ^ power` nearest to a magnitude among those that round to it; of two equally
near ones the larger.  The numbers that round to the magnitude reach halfway to its neighbours, the
ends included when the mantissa is even.  All quantities are multiplied by a common power of two and a
power of ten so that they are whole. -/
def nearestMultiple? (m : Magnitude) (power : Int) : Option Nat :=
  -- Four times the mantissa, so that the quarter steps at the ends are whole.
  let shift := m.exponent - 2
  let up := shift.toNat
  let tens := Nat.pow 10 (-power).toNat
  let value := (4 * m.mantissa) <<< up * tens
  let low := (4 * m.mantissa - (if m.narrowBelow then 1 else 2)) <<< up * tens
  let high := (4 * m.mantissa + 2) <<< up * tens
  let unit := (1 <<< (-shift).toNat) * Nat.pow 10 power.toNat
  let closed := m.mantissa % 2 == 0
  -- Only the two multiples next to the magnitude can be nearest.
  let below := value / unit
  let above := below + 1
  let belowFits := low < below * unit || (closed && low == below * unit)
  let aboveFits := above * unit < high || (closed && above * unit == high)
  match belowFits, aboveFits with
  | true, true => if value - below * unit < above * unit - value then some below else some above
  | true, false => some below
  | false, true => some above
  | false, false => none

/-- Searches the powers of ten downwards from a given one. -/
def shortestFrom (m : Magnitude) : (steps : Nat) → (power : Int) → Option (Nat × Int)
  | 0, _ => none
  | steps + 1, power =>
      match nearestMultiple? m power with
      | some digits => some (digits, power)
      | none => shortestFrom m steps (power - 1)

/-- The shortest decimal of a magnitude, as digits and a power of ten.  All magnitudes lie between
`10 ^ -324` and `10 ^ 309`, and seventeen digits always suffice. -/
def shortestDecimal? (m : Magnitude) : Option (Nat × Int) :=
  shortestFrom m 660 309

/-- Digits times a power of ten, written without an exponent. -/
def positionalText (digits : Nat) (power : Int) : String :=
  if 0 ≤ power then
    String.ofList (decimalDigits digits ++ List.replicate power.toNat '0')
  else
    pointText digits (-power).toNat

/-- The text of a number. -/
def toText (x : Float64) : String :=
  if x.isNaN then "NaN"
  else
    let sign := if x.isNegative then "-" else ""
    if x.isInfinite then sign ++ "inf"
    else if x.isZero then sign ++ "0"
    else
      match shortestDecimal? x.magnitude with
      | some (digits, power) => sign ++ positionalText digits power
      | none => sign

end Float64

end RecordStore
