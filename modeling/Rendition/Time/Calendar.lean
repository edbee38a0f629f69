/-!
# Rendition.Time.Calendar

The Gregorian calendar, continued without end in both directions: days are numbered from the first
of January 1970, and `Date.ofDay` and `Date.toDay` go between a day's number and its date. Seconds
are numbered from the start of that day, without leap seconds, and `DateTime.ofSecond` and
`DateTime.toSecond` go between a second's number and its date and time of day.

Both count from the first of March of a year divisible by 400, as leap days then come last: 400
years have 146097 days, the first three of their centuries 36524 and the last one day more, four
years 1461 except at the end of a century, and a year 365 or, at the end of four, 366.
-/

namespace Rendition.Time

/-- A day of the calendar. -/
@[ext] structure Date where
  /-- The year; the year before 1 is 0. -/
  year : Int
  /-- The month, from 1. -/
  month : Nat
  /-- The day of the month, from 1. -/
  day : Nat
  deriving DecidableEq, Repr

/-- The days before the first of January 1970, from the first of March of the year 0. -/
def daysToEpoch : Int := 719468

/-- The days of the year before each month, from March on. -/
def daysBeforeMonth : List Nat :=
  [0, 31, 61, 92, 122, 153, 184, 214, 245, 275, 306, 337]

/-- The month (0 for March) in which a day of the year lies, and the day's index in the month. -/
def monthOfDay (dayOfYear : Nat) : Nat × Nat :=
  let month := (daysBeforeMonth.drop 1).countP (· ≤ dayOfYear)
  (month, dayOfYear - daysBeforeMonth.getD month 0)

/-- Where a day lies within 400 years: the year, from 0, and the day of the year. -/
def yearOfDay (day : Nat) : Nat × Nat :=
  let century := min 3 (day / 36524)
  let inCentury := day - 36524 * century
  let four := inCentury / 1461
  let inFour := inCentury % 1461
  let year := min 3 (inFour / 365)
  (100 * century + 4 * four + year, inFour - 365 * year)

/-- The days of 400 years before the first of March of a year of them. -/
def dayOfYear (year : Nat) : Nat :=
  365 * year + year / 4 - year / 100

namespace Date

/-- The date of a day, by its number. -/
def ofDay (day : Int) : Date :=
  let fromMarch := day + daysToEpoch
  let (year, inYear) := yearOfDay (fromMarch.fmod 146097).toNat
  let (month, inMonth) := monthOfDay inYear
  let january := if month < 10 then 0 else 1
  { year := 400 * fromMarch.fdiv 146097 + year + january
    month := if month < 10 then month + 3 else month - 9
    day := inMonth + 1 }

/-- The number of the day that has a date. -/
def toDay (d : Date) : Int :=
  let year := if d.month < 3 then d.year - 1 else d.year
  let month := if d.month < 3 then d.month + 9 else d.month - 3
  146097 * year.fdiv 400 + dayOfYear (year.fmod 400).toNat + daysBeforeMonth.getD month 0 + d.day
    - 1 - daysToEpoch

end Date

/-- The day of the week, from 0 for Sunday. The first of January 1970 was a Thursday. -/
def weekday (day : Int) : Nat :=
  ((day + 4).fmod 7).toNat

/-- A second of a day, with the day of the week. -/
structure DateTime where
  /-- The day of the week, from 0 for Sunday. -/
  weekday : Nat
  date : Date
  hour : Nat
  minute : Nat
  second : Nat
  deriving DecidableEq, Repr

namespace DateTime

/-- The date and the time of a second, by its number. -/
def ofSecond (second : Int) : DateTime :=
  let day := second.fdiv 86400
  let inDay := (second.fmod 86400).toNat
  { weekday := Time.weekday day
    date := Date.ofDay day
    hour := inDay / 3600
    minute := inDay / 60 % 60
    second := inDay % 60 }

/-- The number of the second that has a date and a time. The date alone fixes the day. -/
def toSecond (d : DateTime) : Int :=
  86400 * d.date.toDay + (3600 * d.hour + 60 * d.minute + d.second : Nat)

end DateTime

example : Date.ofDay 0 = ⟨1970, 1, 1⟩ ∧ Date.ofDay 11016 = ⟨2000, 2, 29⟩ ∧
    Date.ofDay (-719162) = ⟨1, 1, 1⟩ := by decide

end Rendition.Time
