import RuleEngine.Calendar.Date
import RuleEngine.Text.Digits

/-! Points in time, and their text in the internet date format. Within a leap second the
sub-second part runs on past one second.
-/

namespace RuleEngine

/-- Seconds since the first day of 1970, and nanoseconds after them. -/
structure Instant where
  seconds : Int
  nanos : Nat
deriving DecidableEq

namespace Instant

/-- The order in time: by seconds, then by nanoseconds. -/
def compare (a b : Instant) : Ordering :=
  (Ord.compare a.seconds b.seconds).then (Ord.compare a.nanos b.nanos)

def secondsPerDay : Int := 86400

/-- The instant of a day and the seconds since its midnight. -/
def ofDate (date : Date) (secondOfDay nanos : Nat) : Instant :=
  ⟨date.dayNumber * secondsPerDay + secondOfDay, nanos⟩

/-- The day, and the seconds since its midnight. -/
def split (i : Instant) : Date × Nat :=
  (Date.ofDayNumber (i.seconds / secondsPerDay), (i.seconds % secondsPerDay).toNat)

def isSupported (i : Instant) : Bool :=
  let year := i.split.1.year
  Date.firstYear ≤ year && year ≤ Date.lastYear

/-- The instant some milliseconds after the first day of 1970 began, within the supported years. -/
def ofMillis? (ms : Int) : Option Instant :=
  let i : Instant := ⟨ms / 1000, (ms % 1000).toNat * 1000000⟩
  if i.isSupported then some i else none

-- --------------------------------------------------------------------------------------
-- Text
-- --------------------------------------------------------------------------------------

/-- How many digits a text shows of the sub-second part. -/
inductive Precision where
  /-- Three digits, the rest cut off. -/
  | millis
  /-- The least of 0, 3, 6 and 9 digits that loses nothing. -/
  | least

/-- A year: four digits, with a sign exactly if it lies outside 0 to 9999. -/
def yearText (year : Int) : String :=
  if 0 ≤ year ∧ year ≤ 9999 then Text.zeroPadded 4 year.natAbs
  else (if year < 0 then "-" else "+") ++ Text.zeroPadded 4 year.natAbs

def fractionText (precision : Precision) (nanos : Nat) : String :=
  let digits (count : Nat) : String :=
    "." ++ Text.zeroPadded count (nanos / Nat.pow 10 (9 - count))
  match precision with
  | .millis => digits 3
  | .least =>
    if nanos = 0 then ""
    else if nanos % 1000000 = 0 then digits 3
    else if nanos % 1000 = 0 then digits 6
    else digits 9

/-- Date and time of day in universal time. A leap second is shown as second 60. -/
def text (i : Instant) (precision : Precision) : String :=
  let (date, second) := i.split
  let leap := if 1000000000 ≤ i.nanos then 1 else 0
  let two := Text.zeroPadded 2
  yearText date.year ++ "-" ++ two date.month ++ "-" ++ two date.day ++ "T" ++
    two (second / 3600) ++ ":" ++ two (second / 60 % 60) ++ ":" ++ two (second % 60 + leap) ++
    fractionText precision (i.nanos - 1000000000 * leap) ++ "Z"

end Instant

end RuleEngine
