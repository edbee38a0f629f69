import Rendition.Text.Decimal
import Rendition.Text.Pieces
import Rendition.Time.Calendar
import Rendition.Time.Timestamp

/-!
# Rendition.Time.HttpDate

The dates of HTTP headers, such as `Sun, 06 Nov 1994 08:49:37 GMT`. A point of time is written to
the second in which it lies. The years from 0 to 9999 have four digits; any other year has a sign
before at least four digits, and the calendar ends where years need more than 18 bits.

`dateTimeOf?` reads a date back as it is printed, and `secondOf?` the second that it names, which
the day of the week has no part in.
-/

namespace Rendition.Time

open Text

/-! ### Writing -/

/-- The names of the days of the week, from Sunday. -/
def weekdayNames : List String := ["Sun", "Mon", "Tue", "Wed", "Thu", "Fri", "Sat"]

/-- The names of the months, from January. -/
def monthNames : List String :=
  ["Jan", "Feb", "Mar", "Apr", "May", "Jun", "Jul", "Aug", "Sep", "Oct", "Nov", "Dec"]

/-- A year in a date. -/
def yearText (year : Int) : String :=
  if 0 ≤ year ∧ year ≤ 9999 then paddedDigits 4 year.toNat
  else if year < 0 then "-" ++ paddedDigits 4 year.natAbs
  else "+" ++ paddedDigits 4 year.natAbs

/-- The years that can be written. -/
def firstYear : Int := -262143

@[inherit_doc firstYear]
def lastYear : Int := 262142

/-- A date and a time in a header. -/
def DateTime.text (d : DateTime) : String :=
  weekdayNames.getD d.weekday "" ++ ", " ++ paddedDigits 2 d.date.day ++ " "
    ++ monthNames.getD (d.date.month - 1) "" ++ " " ++ yearText d.date.year ++ " "
    ++ paddedDigits 2 d.hour ++ ":" ++ paddedDigits 2 d.minute ++ ":" ++ paddedDigits 2 d.second
    ++ " GMT"

/-- The date of a point of time, if its year can be written. -/
def httpDate? (t : Timestamp) : Option String :=
  let d := DateTime.ofSecond t.second
  if firstYear ≤ d.date.year ∧ d.date.year ≤ lastYear then some d.text else none

/-! ### Reading -/

/-- The year that a text spells. -/
def readYear? (s : String) : Option Int :=
  match s.toList with
  | '-' :: digits => (readNat? (String.ofList digits)).map fun n : Nat => -(n : Int)
  | '+' :: digits => (readNat? (String.ofList digits)).map Int.ofNat
  | _ => (readNat? s).map Int.ofNat

/-- The place of a name in a list of names. -/
def indexOf? (names : List String) (name : String) : Option Nat :=
  names.findIdx? (· = name)

/-- The hour, the minute and the second that a time such as `08:49:37` spells. -/
def readTime? (s : String) : Option (Nat × Nat × Nat) :=
  match pieces ':' s with
  | [hour, minute, second] => do
    some (← readNat? hour, ← readNat? minute, ← readNat? second)
  | _ => none

/-- The date and the time that a text spells. -/
def dateTimeOf? (s : String) : Option DateTime :=
  match pieces ' ' s with
  | [weekday, day, month, year, time, "GMT"] => do
    let (hour, minute, second) ← readTime? time
    some
      { weekday := ← indexOf? (weekdayNames.map (· ++ ",")) weekday
        date :=
          { year := ← readYear? year
            month := (← indexOf? monthNames month) + 1
            day := ← readNat? day }
        hour, minute, second }
  | _ => none

/-- The second, counted from the epoch, that a date names. -/
def secondOf? (s : String) : Option Int :=
  (dateTimeOf? s).map DateTime.toSecond

end Rendition.Time
