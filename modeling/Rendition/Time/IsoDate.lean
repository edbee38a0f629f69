import Rendition.Text.Decimal
import Rendition.Time.Calendar
import Rendition.Time.HttpDate
import Rendition.Time.Timestamp

/-!
# Rendition.Time.IsoDate

Points of time as the log writes them, such as `1994-11-06T08:49:37.000000Z`: from the year to the
microsecond, so that later points come later in the order of texts within four-digit years.
-/

namespace Rendition.Time

open Text

/-- A point of time, rounded down to a microsecond. -/
def isoDate (t : Timestamp) : String :=
  let d := DateTime.ofSecond t.second
  let micros := (t.nanos.fmod nanosPerSecond).toNat / 1000
  yearText d.date.year ++ "-" ++ paddedDigits 2 d.date.month ++ "-" ++ paddedDigits 2 d.date.day
    ++ "T" ++ paddedDigits 2 d.hour ++ ":" ++ paddedDigits 2 d.minute ++ ":"
    ++ paddedDigits 2 d.second ++ "." ++ paddedDigits 6 micros ++ "Z"

example : isoDate (.ofMillis 784111777123) = "1994-11-06T08:49:37.123000Z" := by decide

end Rendition.Time
