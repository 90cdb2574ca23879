import RecordStore.Text.Digits

/-!
# Dates and times of day

Dates of the proleptic Gregorian calendar from the year -262143 to the year 262142 (year 0 exists), times
of day with nanoseconds, and their combinations.

A date is its day number, day 1 being the first of January of year 1; year, month and day are a view
(`Date.civil`).  A time of day may fall into a leap second, which is kept as a nanosecond count of at least
`10 ^ 9`.  Nothing ties leap seconds to a place in the minute as long as a time is only held; but where a
time is made of its parts, they are accepted in the last second of a minute alone
(`TimeOfDay.Readable`).
-/

namespace RecordStore

/-! ## Dates -/

/-- A calendar date, given by its day number. -/
structure Date where
  day : Int
  day_ge : -95746129 ≤ day := by decide
  day_le : day ≤ 95745399 := by decide
deriving DecidableEq

/-- Year, month and day of a date. -/
structure CivilDate where
  year : Int
  month : Int
  day : Int
deriving DecidableEq

namespace CivilDate

/-- The day number of a year, month and day.  Years are counted from March, so that the leap day is
the last day of a year, in periods of 400 years. -/
def dayNumber (c : CivilDate) : Int :=
  let year := if c.month ≤ 2 then c.year - 1 else c.year
  let period := year / 400
  let yearOfPeriod := year % 400
  -- From March on the months come in fives of 153 days.
  let dayOfYear := (153 * ((c.month + 9) % 12) + 2) / 5 + c.day - 1
  let dayOfPeriod := yearOfPeriod * 365 + yearOfPeriod / 4 - yearOfPeriod / 100 + dayOfYear
  period * 146097 + dayOfPeriod - 305

/-- The year, month and day of a day number. -/
def ofDayNumber (day : Int) : CivilDate :=
  let period := (day + 305) / 146097
  let dayOfPeriod := (day + 305) % 146097
  -- Leap days are taken out first: one in four years, but not in every hundredth.
  let yearOfPeriod :=
    (dayOfPeriod - dayOfPeriod / 1460 + dayOfPeriod / 36524 - dayOfPeriod / 146096) / 365
  let dayOfYear := dayOfPeriod - (365 * yearOfPeriod + yearOfPeriod / 4 - yearOfPeriod / 100)
  let monthFromMarch := (5 * dayOfYear + 2) / 153
  let month := if monthFromMarch < 10 then monthFromMarch + 3 else monthFromMarch - 9
  let year := yearOfPeriod + period * 400
  { year := if month ≤ 2 then year + 1 else year
    month
    day := dayOfYear - (153 * monthFromMarch + 2) / 5 + 1 }

end CivilDate

namespace Date

instance : Inhabited Date := ⟨{ day := 1 }⟩

/-- The date with a day number; nothing when it is out of range. -/
def ofDay? (day : Int) : Option Date :=
  if h : -95746129 ≤ day ∧ day ≤ 95745399 then some ⟨day, h.1, h.2⟩ else none

/-- Year, month and day. -/
def civil (date : Date) : CivilDate :=
  CivilDate.ofDayNumber date.day

/-- The date of a year, month and day; nothing when there is no such date. -/
def ofCivil? (c : CivilDate) : Option Date :=
  if CivilDate.ofDayNumber c.dayNumber = c then ofDay? c.dayNumber else none

/-- A year in at least four digits, with a sign when it is negative or has more than four. -/
def yearText (year : Int) : String :=
  if year < 0 then "-" ++ paddedText 4 year.natAbs
  else if year ≤ 9999 then paddedText 4 year.natAbs
  else "+" ++ natText year.natAbs

/-- A date as year, month and day. -/
def toText (date : Date) : String :=
  let c := date.civil
  yearText c.year ++ "-" ++ paddedText 2 c.month.natAbs ++ "-" ++ paddedText 2 c.day.natAbs

end Date

/-! ## Times of day -/

/-- A time of day. -/
structure TimeOfDay where
  /-- Whole seconds since midnight. -/
  seconds : Nat
  /-- Nanoseconds since the last whole second; `10 ^ 9` or more in a leap second. -/
  nanos : Nat
  seconds_lt : seconds < 86400 := by decide
  nanos_lt : nanos < 2000000000 := by decide
deriving DecidableEq

namespace TimeOfDay

instance : Inhabited TimeOfDay := ⟨{ seconds := 0, nanos := 0 }⟩

/-- The time is made again of its parts: a leap second needs the last second of a minute. -/
def Readable (time : TimeOfDay) : Prop :=
  1000000000 ≤ time.nanos → time.seconds % 60 = 59

instance (time : TimeOfDay) : Decidable time.Readable :=
  inferInstanceAs (Decidable (1000000000 ≤ time.nanos → time.seconds % 60 = 59))

/-- The time of day with the given parts; nothing when no time is made of them. -/
def ofParts? (seconds nanos : Nat) : Option TimeOfDay :=
  if h : seconds < 86400 ∧ nanos < 2000000000 then
    let time : TimeOfDay := { seconds, nanos, seconds_lt := h.1, nanos_lt := h.2 }
    if time.Readable then some time else none
  else none

/-- A fraction of a second in the fewest of zero, three, six and nine digits that show it all. -/
def fractionText (nanos : Nat) : String :=
  if nanos = 0 then ""
  else if nanos % 1000000 = 0 then "." ++ paddedText 3 (nanos / 1000000)
  else if nanos % 1000 = 0 then "." ++ paddedText 6 (nanos / 1000)
  else "." ++ paddedText 9 nanos

/-- Hours, minutes and seconds; a leap second is the second after the one that it is kept in. -/
def clockText (time : TimeOfDay) : String :=
  let leap := if 1000000000 ≤ time.nanos then 1 else 0
  paddedText 2 (time.seconds / 3600) ++ ":" ++ paddedText 2 (time.seconds / 60 % 60) ++ ":" ++
    paddedText 2 (time.seconds % 60 + leap)

/-- A time of day with its fraction of a second. -/
def toText (time : TimeOfDay) : String :=
  time.clockText ++ fractionText (time.nanos % 1000000000)

end TimeOfDay

/-! ## Dates with times -/

/-- A date and a time of day, without a zone. -/
structure DateTime where
  date : Date
  time : TimeOfDay
deriving DecidableEq, Inhabited

namespace DateTime

/-- The day number of the first of January 1970. -/
def epochDay : Int := 719163

/-- Seconds since the first of January 1970; those of a leap second are those of the second before. -/
def unixSeconds (t : DateTime) : Int :=
  (t.date.day - epochDay) * 86400 + t.time.seconds

/-- The date and time a number of seconds after the first of January 1970; nothing when it is out of
range or the nanoseconds do not fit. -/
def ofUnix? (seconds : Int) (nanos : Nat) : Option DateTime :=
  match Date.ofDay? (seconds / 86400 + epochDay),
      TimeOfDay.ofParts? (seconds % 86400).toNat nanos with
  | some date, some time => some ⟨date, time⟩
  | _, _ => none

/-- Microseconds since the first of January 1970, zero for earlier times. -/
def unixMicros (t : DateTime) : UInt64 :=
  UInt64.ofNat (t.unixSeconds * 1000000 + (t.time.nanos / 1000 : Nat)).toNat

/-- Date and time, separated by a blank. -/
def toText (t : DateTime) : String :=
  t.date.toText ++ " " ++ t.time.toText

/-- Date and time in universal time with microseconds, as internet timestamps are written. -/
def timestampText (t : DateTime) : String :=
  t.date.toText ++ "T" ++ t.time.clockText ++ "." ++
    paddedText 6 (t.time.nanos % 1000000000 / 1000) ++ "Z"

end DateTime

end RecordStore
