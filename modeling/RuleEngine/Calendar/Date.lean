/-! Days of the Gregorian calendar, extended without end to both sides, and their numbers counted
from the first day of 1970.
-/

namespace RuleEngine

structure Date where
  year : Int
  month : Nat
  day : Nat
deriving DecidableEq

namespace Date

def isLeapYear (year : Int) : Bool :=
  year % 4 == 0 && (year % 100 != 0 || year % 400 == 0)

/-- The number of days of each month, January first. -/
def monthLengths (year : Int) : List Nat :=
  [31, if isLeapYear year then 29 else 28, 31, 30, 31, 30, 31, 31, 30, 31, 30, 31]

/-- The first and the last year that dates may lie in. -/
def firstYear : Int := -262143

def lastYear : Int := 262142

/-- Whether the day exists and lies in the supported years. -/
def isValid (d : Date) : Bool :=
  firstYear ≤ d.year && d.year ≤ lastYear && 1 ≤ d.month && d.month ≤ 12 &&
    1 ≤ d.day && d.day ≤ ((monthLengths d.year)[d.month - 1]?).getD 0

/-- The number of days from the first day of year 1 to the first day of a year. -/
def daysBeforeYear (year : Int) : Int :=
  let past := year - 1
  365 * past + past / 4 - past / 100 + past / 400

/-- The number of days from the first day of year 1 to the first day of 1970. -/
def epoch : Int := 719162

/-- The number of days since the first day of 1970. -/
def dayNumber (d : Date) : Int :=
  let inYear := ((monthLengths d.year).take (d.month - 1)).foldl Nat.add 0
  daysBeforeYear d.year + inYear + d.day - 1 - epoch

/-- The month and the day of a day of the year, both counted from 0. -/
def splitMonths : List Nat → Nat → Nat × Nat
  | [], day => (0, day)
  | length :: rest, day =>
    if day < length then (0, day)
    else
      let (month, day) := splitMonths rest (day - length)
      (month + 1, day)

/-- The date of a day number. Years repeat after 400; within such a cycle a year of 366 days
underestimates the year by at most one.
-/
def ofDayNumber (n : Int) : Date :=
  let day := n + epoch
  let base := 400 * (day / 146097) + 1
  let guess := base + day % 146097 / 366
  let year := if daysBeforeYear (guess + 1) ≤ day then guess + 1 else guess
  let (month, rest) := splitMonths (monthLengths year) (day - daysBeforeYear year).toNat
  ⟨year, month + 1, rest + 1⟩

/-- The day of the week, Monday being 0. -/
def weekday (d : Date) : Nat := ((d.dayNumber + 3) % 7).toNat

end Date

end RuleEngine
