import RecordStore.Calendar
import RecordStore.ShortCode

/-!
# Fresh identifiers and the clock

Inserting rows and stamping a storage need identifiers that nobody has used and the current time.  Both
come from a `Supply`, which is handed on from one draw to the next: it holds everything the environment
will answer, and how many questions have been asked so far.
-/

namespace RecordStore

/-- What the environment answers to questions for identifiers and for the time. -/
structure Supply where
  /-- The identifier given to each question. -/
  identifier : Nat → BitVec 128
  /-- The time at each question. -/
  instant : Nat → DateTime
  /-- The number of questions asked so far. -/
  drawn : Nat := 0

namespace Supply

/-- The supply after one more question. -/
def advance (supply : Supply) : Supply :=
  { supply with drawn := supply.drawn + 1 }

/-- A fresh short code. -/
def code (supply : Supply) : String :=
  shortCode (supply.identifier supply.drawn)

/-- The current time. -/
def now (supply : Supply) : DateTime :=
  supply.instant supply.drawn

end Supply

end RecordStore
