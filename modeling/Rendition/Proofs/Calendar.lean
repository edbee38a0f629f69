import Mathlib.Data.List.Lex
import Mathlib.Order.Monotone.Basic
import Mathlib.Tactic.IntervalCases
import Rendition.Time.Calendar

/-!
# Rendition.Proofs.Calendar

The calendar follows the rules of Gregory: the lengths of months and the leap years, from which the
days before a date are counted month by month (`Date.daysBefore`). `exists_place` says once what
`Date.ofDay` answers for a day. From it come that the answer is a date of the calendar, that as many
days are before it as its number says (`daysBefore_ofDay`), and that `Date.toDay` leads back.

Dates and times in the order of their numbers are in the order of their seconds
(`DateTime.parts_lt_iff`), as a part never reaches the length of its unit.
-/

namespace Rendition.Time

/-! ### The rules -/

/-- The years with a leap day: every fourth, but of the last years of centuries every fourth only. -/
def IsLeap (year : Int) : Prop :=
  4 ∣ year ∧ (100 ∣ year → 400 ∣ year)

instance (year : Int) : Decidable (IsLeap year) :=
  inferInstanceAs (Decidable (_ ∧ _))

/-- The days of a month. -/
def daysInMonth (year : Int) (month : Nat) : Nat :=
  match month with
  | 2 => if IsLeap year then 29 else 28
  | 4 | 6 | 9 | 11 => 30
  | _ => 31

/-- The days of the first months of a year. -/
def daysInMonths (year : Int) : (months : Nat) → Nat
  | 0 => 0
  | months + 1 => daysInMonths year months + daysInMonth year (months + 1)

/-- The days of the first years, from the year 1 on. -/
def daysInYears : (years : Nat) → Nat
  | 0 => 0
  | years + 1 => daysInYears years + daysInMonths (years + 1) 12

namespace Date

/-- The calendar has the date. -/
structure InCalendar (d : Date) : Prop where
  month_pos : 1 ≤ d.month
  month_le : d.month ≤ 12
  day_pos : 1 ≤ d.day
  day_le : d.day ≤ daysInMonth d.year d.month

/-- The days before a date, from the first of January of the year 1 on. -/
def daysBefore (d : Date) : Nat :=
  daysInYears (d.year.toNat - 1) + daysInMonths d.year (d.month - 1) + (d.day - 1)

end Date

/-! ### Counting -/

theorem daysInMonths_year (year : Int) :
    daysInMonths year 12 = if IsLeap year then 366 else 365 := by
  simp only [daysInMonths, daysInMonth]
  split <;> rfl

/-- The number of the first day of a year. A year has 365 days, every fourth one more, without the
last years of centuries, but for every fourth of these. -/
def startOfYear (year : Int) : Int :=
  365 * (year - 1) + (year - 1) / 4 - (year - 1) / 100 + (year - 1) / 400 - 719162

theorem startOfYear_succ (year : Int) :
    startOfYear (year + 1) = startOfYear year + daysInMonths year 12 := by
  rw [daysInMonths_year, startOfYear, startOfYear]
  split
  · next hleap => unfold IsLeap at hleap; omega
  · next hcommon => unfold IsLeap at hcommon; omega

theorem startOfYear_le {year other : Int} (h : year ≤ other) :
    startOfYear year ≤ startOfYear other := by
  unfold startOfYear
  omega

/-- A year starts when all years before it are over. -/
theorem startOfYear_eq (years : Nat) : startOfYear (years + 1) = daysInYears years - 719162 := by
  induction years with
  | zero => rfl
  | succ years ih =>
      rw [Nat.cast_succ, startOfYear_succ, ih, daysInYears]
      omega

theorem daysInYears_1969 : daysInYears 1969 = 719162 := by
  have hepoch : (0 : Int) = daysInYears 1969 - 719162 := startOfYear_eq 1969
  omega

theorem monotone_daysInMonths (year : Int) : Monotone (daysInMonths year) :=
  monotone_nat_of_le_succ fun _ => Nat.le_add_right _ _

/-! ### The date of a day -/

/-- Where a day lies within 400 years that begin in March: a year has a 366th day only if its
February is in a leap year. -/
theorem yearOfDay_cases (day : Nat) (h : day < 146097) :
    (yearOfDay day).1 < 400 ∧ day = dayOfYear (yearOfDay day).1 + (yearOfDay day).2 ∧
      (yearOfDay day).2 ≤ 365 ∧ ((yearOfDay day).2 = 365 → IsLeap ((yearOfDay day).1 + 1 : Nat)) := by
  unfold IsLeap dayOfYear yearOfDay
  dsimp only
  generalize hcentury : min 3 (day / 36524) = century
  generalize hinCentury : day - 36524 * century = inCentury
  generalize hfour : inCentury / 1461 = four
  generalize hinFour : inCentury % 1461 = inFour
  generalize hyear : min 3 (inFour / 365) = year
  have hlast : inCentury ≤ 36524 ∧ (inCentury = 36524 → century = 3) := by omega
  have hquarters : (100 * century + 4 * four + year) / 4 = 25 * century + four := by omega
  have hcenturies : (100 * century + 4 * four + year) / 100 = century := by omega
  rw [hquarters, hcenturies]
  omega

/-- Where a day of the year lies, counted from March. A month of the year has so many days, if the
year ends with a leap day. -/
theorem monthOfDay_cases : ∀ inYear < 366, (monthOfDay inYear).1 < 12 ∧
    inYear = daysBeforeMonth.getD (monthOfDay inYear).1 0 + (monthOfDay inYear).2 ∧
    (monthOfDay inYear).2
      < [31, 30, 31, 30, 31, 31, 30, 31, 30, 31, 31, 29].getD (monthOfDay inYear).1 0 := by
  decide +kernel

/-- The months from March on have their lengths. -/
theorem daysInMonth_place {year : Int} {month inMonth : Nat} (hmonth : month < 12)
    (hlength : inMonth < [31, 30, 31, 30, 31, 31, 30, 31, 30, 31, 31, 29].getD month 0)
    (hleap : month = 11 → inMonth = 28 → IsLeap year) :
    inMonth + 1 ≤ daysInMonth year (if month < 10 then month + 3 else month - 9) := by
  by_cases hfebruary : month = 11
  · subst hfebruary
    simp only [List.getD_cons_succ, List.getD_cons_zero] at hlength
    simp only [daysInMonth, Nat.reduceLT, Nat.reduceSub, if_false]
    split
    · omega
    · next hcommon =>
        exact lt_of_le_of_ne (Nat.le_of_lt_succ hlength) fun h => hcommon (hleap rfl (by omega))
  · have hmonth' : month < 11 := by omega
    interval_cases month <;> simp [daysInMonth] at hlength ⊢ <;> omega

/-- The months before one, counted from January on, are 306 days fewer than counted from March on, or,
from the year before, 365 days and its leap day more. -/
theorem daysInMonths_place (year : Int) {month : Nat} (hmonth : month < 12) :
    daysInMonths year ((if month < 10 then month + 3 else month - 9) - 1) + 306
      = daysBeforeMonth.getD month 0 + if month < 10 then daysInMonths year 12 else 0 := by
  interval_cases month <;> simp [daysInMonths, daysInMonth, daysBeforeMonth] <;> omega

/-- Where a day lies: in a year from March on within 400 years, in a month of it. That is what the
date of the day says, with its year and months from January on. -/
theorem exists_place (day : Int) : ∃ (cycle : Int) (year month inMonth : Nat),
    year < 400 ∧ month < 12 ∧
    day + daysToEpoch
      = 146097 * cycle + dayOfYear year + daysBeforeMonth.getD month 0 + inMonth ∧
    Date.ofDay day =
      { year := 400 * cycle + year + if month < 10 then 0 else 1
        month := if month < 10 then month + 3 else month - 9
        day := inMonth + 1 } ∧
    (Date.ofDay day).InCalendar := by
  have hmod := Int.fmod_def (day + daysToEpoch) 146097
  have hnonneg := Int.fmod_nonneg_of_pos (day + daysToEpoch) (b := 146097) (by decide)
  have hlt := Int.fmod_lt_of_pos (day + daysToEpoch) (b := 146097) (by decide)
  generalize hcycle : (day + daysToEpoch).fdiv 146097 = cycle at hmod
  generalize hwithin : ((day + daysToEpoch).fmod 146097).toNat = within
  obtain ⟨hyear, hday, hinYear, hlast⟩ := yearOfDay_cases within (by omega)
  obtain ⟨hmonth, hplace, hlength⟩ := monthOfDay_cases _ (Nat.lt_succ_of_le hinYear)
  generalize hinYearEq : (yearOfDay within).2 = inYear at *
  generalize hyearEq : (yearOfDay within).1 = year at *
  generalize hmonthEq : (monthOfDay inYear).1 = month at *
  generalize hinMonthEq : (monthOfDay inYear).2 = inMonth at *
  have hdate : Date.ofDay day =
      { year := 400 * cycle + year + if month < 10 then 0 else 1
        month := if month < 10 then month + 3 else month - 9
        day := inMonth + 1 } := by
    rw [← hcycle, ← hyearEq, ← hmonthEq, ← hinMonthEq, ← hinYearEq, ← hwithin]
    rfl
  have hleap : month = 11 → inMonth = 28 →
      IsLeap (400 * cycle + year + if month < 10 then 0 else 1) := by
    rintro rfl rfl
    have := hlast hplace
    unfold IsLeap at this ⊢
    simp only [Nat.reduceLT, if_false]
    omega
  refine ⟨cycle, year, month, inMonth, hyear, hmonth, by omega, hdate, ?_⟩
  rw [hdate]
  refine ⟨?_, ?_, Nat.succ_pos inMonth, daysInMonth_place hmonth hlength hleap⟩
  · dsimp only
    split <;> omega
  · dsimp only
    split <;> omega

namespace Date

theorem inCalendar_ofDay (day : Int) : (ofDay day).InCalendar := by
  obtain ⟨-, -, -, -, -, -, -, -, h⟩ := exists_place day
  exact h

/-- A day is where its date says: so many months and days behind the start of its year. -/
theorem eq_startOfYear_add (day : Int) :
    day = startOfYear (ofDay day).year
      + (daysInMonths (ofDay day).year ((ofDay day).month - 1) + ((ofDay day).day - 1) : Nat) := by
  obtain ⟨cycle, year, month, inMonth, hyear, hmonth, hday, hdate, -⟩ := exists_place day
  have hmonths := daysInMonths_place (ofDay day).year hmonth
  have hsucc := startOfYear_succ (ofDay day).year
  rw [hdate] at hmonths hsucc ⊢
  unfold daysToEpoch dayOfYear at hday
  dsimp only at hmonths hsucc ⊢
  generalize daysInMonths _ 12 = length at hmonths hsucc
  generalize daysInMonths _ _ = before at hmonths ⊢
  unfold startOfYear at hsucc ⊢
  by_cases hmarch : month < 10
  · simp only [if_pos hmarch] at hmonths hsucc ⊢
    omega
  · simp only [if_neg hmarch] at hmonths hsucc ⊢
    omega

/-- The number of a day is read off its date. -/
theorem toDay_ofDay (day : Int) : (ofDay day).toDay = day := by
  obtain ⟨cycle, year, month, inMonth, hyear, hmonth, hday, hdate, -⟩ := exists_place day
  -- The year and the month from March on, as they were.
  have hfromMarch : (if (ofDay day).month < 3 then (ofDay day).year - 1 else (ofDay day).year)
        = 400 * cycle + year ∧
      (if (ofDay day).month < 3 then (ofDay day).month + 9 else (ofDay day).month - 3) = month := by
    rw [hdate]
    dsimp only
    split_ifs <;> omega
  have hcycle : (400 * cycle + year : Int).fdiv 400 = cycle := by
    rw [Int.fdiv_eq_ediv_of_nonneg _ (by decide)]
    omega
  have hrest : (400 * cycle + year : Int).fmod 400 = year := by
    rw [Int.fmod_eq_emod_of_nonneg _ (by decide)]
    omega
  rw [toDay, hfromMarch.1, hfromMarch.2, hcycle, hrest, Int.toNat_natCast, hdate]
  dsimp only
  omega

/-! ### Dates in order -/

/-- Within a year, a date is before the end of the year. -/
theorem InCalendar.lt_daysInMonths {d : Date} (h : d.InCalendar) {months : Nat}
    (hmonths : d.month ≤ months) :
    daysInMonths d.year (d.month - 1) + (d.day - 1) < daysInMonths d.year months := by
  have hmonth : daysInMonths d.year d.month
      = daysInMonths d.year (d.month - 1) + daysInMonth d.year d.month := by
    obtain ⟨before, hbefore⟩ := Nat.exists_eq_add_of_le' h.month_pos
    rw [hbefore]
    rfl
  have hle := monotone_daysInMonths d.year hmonths
  have hday := h.day_le
  have hpos := h.day_pos
  omega

/-- The first day of a later year is a later day. -/
theorem lt_startOfYear_iff (day year : Int) :
    day < startOfYear year ↔ (ofDay day).year < year := by
  have hday := eq_startOfYear_add day
  have hwithin := (inCalendar_ofDay day).lt_daysInMonths (inCalendar_ofDay day).month_le
  have hsucc := startOfYear_succ (ofDay day).year
  constructor
  · intro hlt
    by_contra hle
    have := startOfYear_le (not_lt.1 hle)
    omega
  · intro hlt
    have := startOfYear_le (Int.add_one_le_of_lt hlt)
    omega

/-- As many days are before the date of a day as its number says. -/
theorem daysBefore_ofDay {day : Int} (h : 1 ≤ (ofDay day).year) :
    ((ofDay day).daysBefore : Int) = day + 719162 := by
  have hday := eq_startOfYear_add day
  have hstart := startOfYear_eq ((ofDay day).year.toNat - 1)
  have hyear : (((ofDay day).year.toNat - 1 : Nat) : Int) + 1 = (ofDay day).year := by omega
  rw [hyear] at hstart
  unfold daysBefore
  omega

/-- A day is earlier than another one if its date is, by year, month and day. -/
theorem lt_of_ofDay_lt {a b : Int}
    (h : (ofDay a).year < (ofDay b).year ∨ (ofDay a).year = (ofDay b).year ∧
      ((ofDay a).month < (ofDay b).month ∨
        (ofDay a).month = (ofDay b).month ∧ (ofDay a).day < (ofDay b).day)) :
    a < b := by
  have hb := eq_startOfYear_add b
  rcases h with hyear | ⟨hyear, h⟩
  · have := (lt_startOfYear_iff a _).2 hyear
    omega
  · have ha := eq_startOfYear_add a
    rw [← hyear] at hb
    rcases h with hmonth | ⟨hmonth, hday⟩
    · have := (inCalendar_ofDay a).lt_daysInMonths (Nat.le_sub_one_of_lt hmonth)
      omega
    · have := (inCalendar_ofDay a).day_pos
      rw [← hmonth] at hb
      omega

end Date

/-! ### Times of the day -/

namespace DateTime

/-- The calendar has the date, the day of the week is the date's, as the first of January of the
year 1 is a Monday, and the day has the time. -/
structure InCalendar (d : DateTime) : Prop where
  date : d.date.InCalendar
  weekday : d.weekday = (d.date.daysBefore + 1) % 7
  hour : d.hour < 24
  minute : d.minute < 60
  second : d.second < 60

/-- The seconds before a date and a time, from the start of the year 1 on. -/
def secondsBefore (d : DateTime) : Nat :=
  86400 * d.date.daysBefore + 3600 * d.hour + 60 * d.minute + d.second

/-- The numbers that are printed, from the year to the second. -/
def parts (d : DateTime) : List Int :=
  [d.date.year, d.date.month, d.date.day, d.hour, d.minute, d.second]

/-- Where a second lies within its day. -/
theorem inDay_spec (second : Int) : second = 86400 * second.fdiv 86400 + second.fmod 86400 ∧
    0 ≤ second.fmod 86400 ∧ second.fmod 86400 < 86400 :=
  ⟨(Int.mul_fdiv_add_fmod second 86400).symm, Int.fmod_nonneg_of_pos second (by decide),
    Int.fmod_lt_of_pos second (by decide)⟩

/-- A second is read off its date and time. -/
theorem toSecond_ofSecond (second : Int) : (ofSecond second).toSecond = second := by
  have hinDay := inDay_spec second
  simp only [toSecond, ofSecond, Date.toDay_ofDay]
  omega

/-- The years of the dates of seconds begin where the calendar counts them to. -/
theorem year_mem_iff (second first last : Int) :
    first ≤ (ofSecond second).date.year ∧ (ofSecond second).date.year ≤ last ↔
      86400 * startOfYear first ≤ second ∧ second < 86400 * startOfYear (last + 1) := by
  have hinDay := inDay_spec second
  have hbefore := Date.lt_startOfYear_iff (second.fdiv 86400) first
  have hwithin := Date.lt_startOfYear_iff (second.fdiv 86400) (last + 1)
  simp only [ofSecond]
  omega

theorem inCalendar_ofSecond {second : Int} (h : 1 ≤ (ofSecond second).date.year) :
    (ofSecond second).InCalendar := by
  have hinDay := inDay_spec second
  have hdays := Date.daysBefore_ofDay h
  refine ⟨Date.inCalendar_ofDay _, ?_, ?_, Nat.mod_lt _ (by decide), Nat.mod_lt _ (by decide)⟩
  · have hweek := Int.fmod_eq_emod_of_nonneg (second.fdiv 86400 + 4) (b := 7) (by decide)
    simp only [ofSecond, Time.weekday, hweek]
    omega
  · simp only [ofSecond]
    omega

theorem secondsBefore_ofSecond {second : Int} (h : 1 ≤ (ofSecond second).date.year) :
    ((ofSecond second).secondsBefore : Int) = second + 86400 * 719162 := by
  have hinDay := inDay_spec second
  have hdays := Date.daysBefore_ofDay h
  simp only [secondsBefore, ofSecond]
  omega

theorem toSecond_eq_of_parts_eq {d e : DateTime} (h : d.parts = e.parts) :
    d.toSecond = e.toSecond := by
  simp only [parts, List.cons.injEq, Nat.cast_inj, and_true] at h
  obtain ⟨hyear, hmonth, hday, hhour, hminute, hsecond⟩ := h
  rw [toSecond, toSecond, Date.ext hyear hmonth hday, hhour, hminute, hsecond]

/-- A second is earlier than another one if its date and time are, from the year on. -/
theorem lt_of_parts_lt {a b : Int} (h : (ofSecond a).parts < (ofSecond b).parts) : a < b := by
  have ha := inDay_spec a
  have hb := inDay_spec b
  have hday : a.fdiv 86400 < b.fdiv 86400 ∨ a.fdiv 86400 = b.fdiv 86400 ∧
      a.fmod 86400 < b.fmod 86400 := by
    simp only [parts, ofSecond, List.cons_lt_cons_iff, List.not_lt_nil, and_false, or_false,
      Nat.cast_lt, Nat.cast_inj] at h
    rcases h with hyear | ⟨hyear, hmonth | ⟨hmonth, hday | ⟨hday, htime⟩⟩⟩
    · exact Or.inl (Date.lt_of_ofDay_lt (Or.inl hyear))
    · exact Or.inl (Date.lt_of_ofDay_lt (Or.inr ⟨hyear, Or.inl hmonth⟩))
    · exact Or.inl (Date.lt_of_ofDay_lt (Or.inr ⟨hyear, Or.inr ⟨hmonth, hday⟩⟩))
    · have hdate := congrArg Date.toDay (Date.ext hyear hmonth hday)
      rw [Date.toDay_ofDay, Date.toDay_ofDay] at hdate
      exact Or.inr ⟨hdate, by omega⟩
  omega

/-- Seconds are in the order of their dates and times. -/
theorem parts_lt_iff {a b : Int} : (ofSecond a).parts < (ofSecond b).parts ↔ a < b := by
  refine ⟨lt_of_parts_lt, fun hlt => ?_⟩
  rcases lt_trichotomy (ofSecond a).parts (ofSecond b).parts with h | h | h
  · exact h
  · have hsame := toSecond_eq_of_parts_eq h
    rw [toSecond_ofSecond, toSecond_ofSecond] at hsame
    exact absurd hsame hlt.ne
  · exact absurd (lt_of_parts_lt h) hlt.asymm

end DateTime

end Rendition.Time
