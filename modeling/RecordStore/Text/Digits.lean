/-!
# Written numbers

How natural numbers and integers are written in positional notation, with or without padding.
-/

namespace RecordStore

/-- The decimal digits of a number, without leading zeros. -/
def decimalDigits (n : Nat) : List Char :=
  Nat.toDigits 10 n

/-- A number in decimal notation. -/
def natText (n : Nat) : String :=
  String.ofList (decimalDigits n)

/-- An integer in decimal notation, with a minus sign when it is negative. -/
def intText (n : Int) : String :=
  if n < 0 then "-" ++ natText n.natAbs else natText n.natAbs

/-- Characters preceded by as many fill characters as bring them to a width. -/
def padStart (fill : Char) (width : Nat) (chars : List Char) : List Char :=
  List.replicate (width - chars.length) fill ++ chars

/-- Characters followed by as many blanks as bring them to a width. -/
def padEnd (width : Nat) (chars : List Char) : List Char :=
  chars ++ List.replicate (width - chars.length) ' '

/-- A number in decimal notation with leading zeros up to a width. -/
def paddedText (width n : Nat) : String :=
  String.ofList (padStart '0' width (decimalDigits n))

/-- A number in hexadecimal notation with lower-case letters. -/
def hexText (n : Nat) : String :=
  String.ofList (Nat.toDigits 16 n)

/-- Decimal digits of a number with a point before the last `scale` of them, and at least one digit
before the point. -/
def pointText (n scale : Nat) : String :=
  let digits := padStart '0' (scale + 1) (decimalDigits n)
  let whole := digits.take (digits.length - scale)
  let fraction := digits.drop (digits.length - scale)
  if fraction.isEmpty then String.ofList whole
  else String.ofList (whole ++ '.' :: fraction)

end RecordStore
