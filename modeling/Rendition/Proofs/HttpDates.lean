import Rendition.Proofs.Calendar
import Rendition.Proofs.Text.Joining
import Rendition.Time.HttpDate

/-!
# Rendition.Proofs.HttpDates

The dates of headers are read back as they were written. A date is six texts between blanks, and a
time three between colons; none of them holds a separator, so cutting gives them back
(`dateTimeOf?_text`), and each of them spells what it was made of.

Which points of time have a date is a matter of the second in which they lie (`isWritable_iff`), as
the years begin where the calendar counts them to.
-/

namespace Rendition.Time

open Text

/-! ### Digits -/

theorem isDigit_of_mem_paddedDigits {width n : Nat} {c : Char}
    (h : c ∈ (paddedDigits width n).toList) : isDigit c = true := by
  rw [paddedDigits, String.toList_ofList] at h
  rcases List.mem_append.1 h with h | h
  · rw [List.eq_of_mem_replicate h]
    rfl
  · exact Nat.isDigit_of_mem_toDigits (by decide) (by decide) h

/-- A number is read back, whatever zeros are in front of it. -/
theorem readNat?_paddedDigits (width n : Nat) : readNat? (paddedDigits width n) = some n := by
  have hzeros : ∀ zeros digits, digitsValue (List.replicate zeros '0' ++ digits)
      = digitsValue digits := by
    intro zeros digits
    induction zeros with
    | zero => rfl
    | succ zeros ih => exact ih
  have hvalue : digitsValue (paddedDigits width n).toList = n := by
    rw [paddedDigits, String.toList_ofList, hzeros]
    exact Nat.ofDigitChars_toDigits (by decide) (by decide)
  rw [readNat?, if_pos, hvalue]
  refine ⟨?_, List.all_eq_true.2 fun c hc => isDigit_of_mem_paddedDigits hc⟩
  simp [paddedDigits, Nat.toDigits_ne_nil]

theorem not_mem_paddedDigits {c : Char} (hc : isDigit c = false) (width n : Nat) :
    c ∉ (paddedDigits width n).toList := by
  intro h
  rw [isDigit_of_mem_paddedDigits h] at hc
  cases hc

/-! ### Parts of a date -/

/-- A year is read back, with its sign if it has one. -/
theorem readYear?_yearText (year : Int) : readYear? (yearText year) = some year := by
  unfold yearText
  split_ifs with hplain hnegative
  · -- The first character is a digit, and so no sign.
    have hsign : ∀ sign, isDigit sign = false → ∀ digits,
        (paddedDigits 4 year.toNat).toList ≠ sign :: digits := fun sign hsign digits h =>
      not_mem_paddedDigits hsign 4 year.toNat (h ▸ List.mem_cons_self)
    unfold readYear?
    split
    · next h => exact absurd h (hsign '-' rfl _)
    · next h => exact absurd h (hsign '+' rfl _)
    · rw [readNat?_paddedDigits, Option.map_some, Int.ofNat_eq_natCast,
        Int.toNat_of_nonneg hplain.1]
  · have hchars : ("-" ++ paddedDigits 4 year.natAbs).toList
        = '-' :: (paddedDigits 4 year.natAbs).toList := by simp
    simp only [readYear?, hchars, String.ofList_toList, readNat?_paddedDigits, Option.map_some]
    congr 1
    omega
  · have hchars : ("+" ++ paddedDigits 4 year.natAbs).toList
        = '+' :: (paddedDigits 4 year.natAbs).toList := by simp
    simp only [readYear?, hchars, String.ofList_toList, readNat?_paddedDigits, Option.map_some,
      Int.ofNat_eq_natCast]
    congr 1
    omega

theorem not_mem_yearText {c : Char} (hc : isDigit c = false) (hminus : c ≠ '-') (hplus : c ≠ '+')
    (year : Int) : c ∉ (yearText year).toList := by
  unfold yearText
  split_ifs <;> simp [not_mem_paddedDigits hc, hminus, hplus]

theorem indexOf?_weekday : ∀ weekday < 7, indexOf? (weekdayNames.map (· ++ ","))
    (weekdayNames.getD weekday "" ++ ",") = some weekday := by
  decide +kernel

theorem indexOf?_month : ∀ month < 12, indexOf? monthNames (monthNames.getD month "") = some month := by
  decide +kernel

/-- A time of day is read back. -/
theorem readTime?_joined (hour minute second : Nat) :
    readTime? (joined ':' [paddedDigits 2 hour, paddedDigits 2 minute, paddedDigits 2 second])
      = some (hour, minute, second) := by
  have hpieces : pieces ':'
      (joined ':' [paddedDigits 2 hour, paddedDigits 2 minute, paddedDigits 2 second])
        = [paddedDigits 2 hour, paddedDigits 2 minute, paddedDigits 2 second] := by
    refine pieces_joined (List.cons_ne_nil _ _) fun part hpart => ?_
    simp only [List.mem_cons, List.not_mem_nil, or_false] at hpart
    rcases hpart with rfl | rfl | rfl <;> exact not_mem_paddedDigits rfl _ _
  simp only [readTime?, hpieces, readNat?_paddedDigits]
  rfl

/-! ### Dates -/

/-- The texts of a date between the blanks. -/
def DateTime.texts (d : DateTime) : List String :=
  [weekdayNames.getD d.weekday "" ++ ",", paddedDigits 2 d.date.day,
    monthNames.getD (d.date.month - 1) "", yearText d.date.year,
    joined ':' [paddedDigits 2 d.hour, paddedDigits 2 d.minute, paddedDigits 2 d.second], "GMT"]

theorem DateTime.text_eq (d : DateTime) : d.text = joined ' ' d.texts := by
  apply String.toList_injective
  simp [text, texts, joined_cons]

theorem not_mem_name : ∀ weekday < 7, ' ' ∉ (weekdayNames.getD weekday "" ++ ",").toList := by
  decide +kernel

theorem not_mem_month : ∀ month < 12, ' ' ∉ (monthNames.getD month "").toList := by
  decide +kernel

/-- A date is read back as it was written. -/
theorem dateTimeOf?_text {d : DateTime} (hweekday : d.weekday < 7) (hpos : 1 ≤ d.date.month)
    (hmonth : d.date.month ≤ 12) : dateTimeOf? d.text = some d := by
  have hmonth' : d.date.month - 1 < 12 := by omega
  have hfree : ∀ part ∈ d.texts, ' ' ∉ part.toList := by
    simp only [DateTime.texts, List.forall_mem_cons]
    refine ⟨not_mem_name _ hweekday, not_mem_paddedDigits rfl _ _, not_mem_month _ hmonth',
      not_mem_yearText rfl (by decide) (by decide) _, ?_, by decide, by simp⟩
    intro h
    rcases mem_toList_joined h with h | ⟨part, hpart, h⟩
    · cases h
    · simp only [List.mem_cons, List.not_mem_nil, or_false] at hpart
      rcases hpart with rfl | rfl | rfl <;> exact not_mem_paddedDigits rfl _ _ h
  have hpieces : pieces ' ' d.text = d.texts := by
    rw [d.text_eq]
    exact pieces_joined (List.cons_ne_nil _ _) hfree
  simp only [dateTimeOf?, hpieces, DateTime.texts, readTime?_joined, readNat?_paddedDigits,
    readYear?_yearText, indexOf?_weekday _ hweekday, indexOf?_month _ hmonth',
    Option.bind_eq_bind, Option.bind_some, Nat.sub_add_cancel hpos]

/-! ### Points of time with a date -/

namespace Timestamp

variable {t : Timestamp}

/-- A point of time lies in some years from the year 1 on: all years before them are over, and they
themselves are not. -/
def InYears (first last : Nat) (t : Timestamp) : Prop :=
  86400 * ((daysInYears (first - 1) : Int) - daysInYears 1969) ≤ t.second ∧
    t.second < 86400 * ((daysInYears last : Int) - daysInYears 1969)

/-- A point of time lies in a year from -262143 to 262142. -/
def IsWritable (t : Timestamp) : Prop :=
  -8334601228800 ≤ t.second ∧ t.second ≤ 8210266876799

theorem isWritable_iff :
    t.IsWritable ↔ firstYear ≤ (DateTime.ofSecond t.second).date.year ∧
      (DateTime.ofSecond t.second).date.year ≤ lastYear := by
  have hstart : startOfYear firstYear = -96465292 := rfl
  have hend : startOfYear (lastYear + 1) = 95026237 := rfl
  rw [DateTime.year_mem_iff, hstart, hend, IsWritable]
  omega

/-- The points of time in these years have a date. -/
theorem httpDate?_of_isWritable (h : t.IsWritable) :
    httpDate? t = some (DateTime.ofSecond t.second).text :=
  if_pos (isWritable_iff.1 h)

theorem httpDate?_eq_none (h : ¬ t.IsWritable) : httpDate? t = none :=
  if_neg (mt isWritable_iff.2 h)

variable {first last : Nat}

theorem inYears_iff (hfirst : 1 ≤ first) :
    t.InYears first last ↔
      86400 * startOfYear first ≤ t.second ∧ t.second < 86400 * startOfYear (last + 1) := by
  have hyear : ((first - 1 : Nat) : Int) + 1 = first := by omega
  rw [InYears, daysInYears_1969, ← hyear, startOfYear_eq, startOfYear_eq]
  rfl

/-- The year of the date is one of them. -/
theorem InYears.year_mem (h : t.InYears first last) (hfirst : 1 ≤ first) :
    (first : Int) ≤ (DateTime.ofSecond t.second).date.year ∧
      (DateTime.ofSecond t.second).date.year ≤ last :=
  (DateTime.year_mem_iff t.second first last).2 ((inYears_iff hfirst).1 h)

theorem InYears.isWritable (h : t.InYears first last) (hfirst : 1 ≤ first) (hlast : last ≤ 9999) :
    t.IsWritable := by
  have hyear := h.year_mem hfirst
  rw [isWritable_iff]
  unfold firstYear lastYear
  omega

end Timestamp

section Reading

variable {t u : Timestamp}

/-- The date of a point of time is read back as the date of its second. -/
theorem dateTimeOf?_httpDate? (h : t.InYears 1 9999) :
    httpDate? t = some (DateTime.ofSecond t.second).text ∧
      dateTimeOf? (DateTime.ofSecond t.second).text = some (DateTime.ofSecond t.second) ∧
      (DateTime.ofSecond t.second).InCalendar := by
  have hcalendar := DateTime.inCalendar_ofSecond (h.year_mem (le_refl 1)).1
  refine ⟨Timestamp.httpDate?_of_isWritable (h.isWritable (le_refl 1) (le_refl 9999)),
    dateTimeOf?_text ?_ hcalendar.date.month_pos hcalendar.date.month_le, hcalendar⟩
  rw [hcalendar.weekday]
  exact Nat.mod_lt _ (by decide)

theorem bind_dateTimeOf?_httpDate? (h : t.InYears 1 9999) :
    (httpDate? t).bind dateTimeOf? = some (DateTime.ofSecond t.second) := by
  obtain ⟨htext, hread, -⟩ := dateTimeOf?_httpDate? h
  rw [htext, Option.bind_some, hread]

/-- Two points of time have one date if they lie in one second. -/
theorem httpDate?_eq_iff (ht : t.InYears 1 9999) (hu : u.InYears 1 9999) :
    httpDate? t = httpDate? u ↔ t.second = u.second := by
  constructor
  · intro hsame
    have hread := bind_dateTimeOf?_httpDate? ht
    rw [hsame, bind_dateTimeOf?_httpDate? hu] at hread
    have hsecond := congrArg DateTime.toSecond (Option.some.inj hread)
    rw [DateTime.toSecond_ofSecond, DateTime.toSecond_ofSecond] at hsecond
    exact hsecond.symm
  · intro hsecond
    simp only [httpDate?, hsecond]

end Reading

end Rendition.Time
