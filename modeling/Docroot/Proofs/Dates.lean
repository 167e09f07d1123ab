import Mathlib
import Docroot.Calendar

/-!
Days and dates.

The Gregorian calendar by its own rules: which years have a leap day, how long the months are, and
which date follows a date. `Date.number` counts the days from 1 January 1970 by these rules alone,
as `number_next` says, for the years before it as well. `number_ofDays` is the main result: the date
that is computed for a day has that day's number.
-/

namespace Docroot.Calendar

/-! ## The calendar by its rules -/

/-- Every fourth year has a leap day, but of those that end a century only every fourth. -/
def IsLeapYear (year : Int) : Prop := 4 ∣ year ∧ (100 ∣ year → 400 ∣ year)

instance (year : Int) : Decidable (IsLeapYear year) := by
  unfold IsLeapYear
  infer_instance

/-- How many leap days a year has. -/
def leapDay (year : Int) : Nat := if IsLeapYear year then 1 else 0

def monthLength (year : Int) (month : Nat) : Nat :=
  match month with
  | 2 => 28 + leapDay year
  | 4 | 6 | 9 | 11 => 30
  | _ => 31

structure Date.Valid (d : Date) : Prop where
  month_pos : 1 ≤ d.month
  month_le : d.month ≤ 12
  day_pos : 1 ≤ d.day
  day_le : d.day ≤ monthLength d.year d.month

/-- The day after. -/
def Date.next (d : Date) : Date :=
  if d.day < monthLength d.year d.month then { d with day := d.day + 1 }
  else if d.month < 12 then ⟨d.year, d.month + 1, 1⟩
  else ⟨d.year + 1, 1, 1⟩

/-- The leap days from the year 1 on before a year, or back to the year 1 for a year before. -/
def leapDaysBefore (year : Int) : Int := (year - 1) / 4 - (year - 1) / 100 + (year - 1) / 400

/-- The days from 1 January 1970 to that of a year. -/
def daysBeforeYear (year : Int) : Int :=
  365 * (year - 1970) + (leapDaysBefore year - leapDaysBefore 1970)

/-- The days of a year before a month. -/
def daysBeforeMonth (year : Int) (month : Nat) : Nat :=
  ((List.range (month - 1)).map fun m => monthLength year (m + 1)).sum

/-- The days from 1 January 1970 to a date. -/
def Date.number (d : Date) : Int :=
  daysBeforeYear d.year + daysBeforeMonth d.year d.month + d.day - 1

theorem leapDay_cases (year : Int) :
    leapDay year = 1 ∧ year % 4 = 0 ∧ (year % 100 ≠ 0 ∨ year % 400 = 0) ∨
    leapDay year = 0 ∧ (year % 4 ≠ 0 ∨ year % 100 = 0 ∧ year % 400 ≠ 0) := by
  unfold leapDay
  by_cases leap : IsLeapYear year
  · left
    rw [if_pos leap]
    unfold IsLeapYear at leap
    omega
  · right
    rw [if_neg leap]
    unfold IsLeapYear at leap
    omega

theorem monthLength_pos (year : Int) (month : Nat) : 28 ≤ monthLength year month := by
  unfold monthLength
  split <;> omega

theorem daysBeforeYear_next (year : Int) :
    daysBeforeYear (year + 1) = daysBeforeYear year + 365 + leapDay year := by
  have leap := leapDay_cases year
  unfold daysBeforeYear leapDaysBefore
  omega

theorem daysBeforeMonth_next (year : Int) (month : Nat) (pos : 1 ≤ month) :
    daysBeforeMonth year (month + 1) = daysBeforeMonth year month + monthLength year month := by
  obtain ⟨m, rfl⟩ := Nat.exists_eq_add_of_le' pos
  simp [daysBeforeMonth, List.range_succ]

/-- From March on the months have 31 days and 30 in turn, but July and August 31 both. -/
theorem daysBeforeMonth_march (year : Int) {m : Nat} (inYear : m < 10) :
    daysBeforeMonth year (m + 3) = 59 + leapDay year + (153 * m + 2) / 5 := by
  induction m with
  | zero =>
    have february : daysBeforeMonth year 2 = 31 := rfl
    have length : monthLength year 2 = 28 + leapDay year := rfl
    have march : daysBeforeMonth year 3 = daysBeforeMonth year 2 + monthLength year 2 :=
      daysBeforeMonth_next year 2 (by omega)
    simp only [Nat.zero_add]
    omega
  | succ m ih =>
    have before := ih (by omega)
    have length : monthLength year (m + 3) = (153 * (m + 1) + 2) / 5 - (153 * m + 2) / 5 := by
      have small : m < 9 := by omega
      interval_cases m <;> rfl
    have next := daysBeforeMonth_next year (m + 3) (by omega)
    rw [show m + 1 + 3 = m + 3 + 1 by omega]
    omega

theorem daysBeforeMonth_december (year : Int) :
    daysBeforeMonth year 12 + monthLength year 12 = 365 + leapDay year := by
  have december : daysBeforeMonth year 12 = 59 + leapDay year + (153 * 9 + 2) / 5 :=
    daysBeforeMonth_march year (by omega)
  have length : monthLength year 12 = 31 := rfl
  omega

/-- From day to day the numbers follow each other. -/
theorem number_next {d : Date} (valid : d.Valid) : d.next.Valid ∧ d.next.number = d.number + 1 := by
  obtain ⟨month_pos, month_le, day_pos, day_le⟩ := valid
  unfold Date.next
  by_cases inMonth : d.day < monthLength d.year d.month
  · rw [if_pos inMonth]
    refine ⟨⟨month_pos, month_le, Nat.le_add_left _ _, inMonth⟩, ?_⟩
    simp only [Date.number]
    omega
  · rw [if_neg inMonth]
    by_cases inYear : d.month < 12
    · rw [if_pos inYear]
      have length := monthLength_pos d.year (d.month + 1)
      have month := daysBeforeMonth_next d.year d.month month_pos
      refine ⟨⟨Nat.le_add_left _ _, inYear, Nat.le_refl _, ?_⟩, ?_⟩
      · show 1 ≤ monthLength d.year (d.month + 1)
        omega
      · simp only [Date.number]
        omega
    · rw [if_neg inYear]
      have december : d.month = 12 := by omega
      rw [december] at day_le inMonth
      have month := daysBeforeMonth_december d.year
      have year := daysBeforeYear_next d.year
      have january : daysBeforeMonth (d.year + 1) 1 = 0 := rfl
      have length := monthLength_pos (d.year + 1) 1
      refine ⟨⟨Nat.le_refl _, Nat.le_add_left 1 11, Nat.le_refl _, ?_⟩, ?_⟩
      · show 1 ≤ monthLength (d.year + 1) 1
        omega
      · simp only [Date.number, december]
        omega

/-- And so do the weekdays. -/
theorem weekday_next {d : Date} (valid : d.Valid) :
    weekday d.next.number = (weekday d.number + 1) % 7 := by
  rw [(number_next valid).2]
  unfold weekday
  omega

/-! ## The date of a day -/

theorem yearOfCycle_century {c r : Nat} (century : c < 4) (inCentury : r < 36524) :
    yearOfCycle (36524 * c + r) = 100 * c + (r - (24 * c + r) / 1460) / 365 := by
  unfold yearOfCycle
  interval_cases c <;> omega

/-- In a century that starts in March every fourth year is longer by a day, but the last of them
only in the last century of a cycle. -/
theorem year_in_century {c r q y : Nat} (century : c < 4) (inCentury : r < 36524)
    (fours : q = (24 * c + r) / 1460) (year : y = (r - q) / 365) :
    y < 100 ∧ 365 * y + y / 4 ≤ r ∧ r ≤ 365 * y + y / 4 + 365 ∧
      (r = 365 * y + y / 4 + 365 → y % 4 = 3 ∧ (y = 99 → c = 3)) := by
  have bound : r ≤ 365 * y + y / 4 + 365 := by
    interval_cases c <;> omega
  have long : r = 365 * y + y / 4 + 365 → y % 4 = 3 ∧ (y = 99 → c = 3) := by
    interval_cases c <;> omega
  exact ⟨by omega, by omega, bound, long⟩

/-- A day lies in its year of the cycle. The years start in March, so their leap day is that of the
year after. -/
theorem yearOfCycle_bounds {day : Nat} (inCycle : day < 146097) :
    365 * yearOfCycle day + yearOfCycle day / 4 - yearOfCycle day / 100 + dayOfYear day = day ∧
      yearOfCycle day < 400 ∧ dayOfYear day < 365 + leapDay (yearOfCycle day + 1) := by
  have leap := leapDay_cases (yearOfCycle day + 1)
  have place : dayOfYear day =
      day - (365 * yearOfCycle day + yearOfCycle day / 4 - yearOfCycle day / 100) := rfl
  by_cases last : day = 146096
  · have year : yearOfCycle day = 399 := by
      rw [last]
      rfl
    omega
  · obtain ⟨c, r, inCentury, rfl⟩ : ∃ c r, r < 36524 ∧ day = 36524 * c + r :=
      ⟨day / 36524, day % 36524, by omega, by omega⟩
    have century : c < 4 := by omega
    obtain ⟨small, first, bound, long⟩ := year_in_century century inCentury rfl rfl
    have year := yearOfCycle_century century inCentury
    generalize (r - (24 * c + r) / 1460) / 365 = y at year small first bound long
    have fours : (100 * c + y) / 4 = 25 * c + y / 4 := by omega
    have centuries : (100 * c + y) / 100 = c := by omega
    rw [year, fours, centuries] at place
    rw [year] at leap ⊢
    rw [fours, centuries]
    generalize dayOfYear (36524 * c + r) = d at place ⊢
    refine ⟨by omega, by omega, ?_⟩
    by_cases end' : r = 365 * y + y / 4 + 365
    · obtain ⟨fourth, lastCentury⟩ := long end'
      push_cast at leap ⊢
      omega
    · omega

/-- The days from 1 January 1970 to 1 March of a year. -/
def daysBeforeMarch (year : Int) : Int := daysBeforeYear year + 59 + leapDay year

/-- The same, for a year of a cycle. -/
theorem daysBeforeMarch_eq (year cycles : Int) (inCycle : 0 ≤ year ∧ year < 400) :
    daysBeforeMarch (year + 400 * cycles) =
      365 * year + year / 4 - year / 100 + cycle * cycles - epochShift := by
  have leap := leapDay_cases (year + 400 * cycles)
  unfold daysBeforeMarch daysBeforeYear leapDaysBefore cycle epochShift
  omega

theorem leapDay_cycles (year cycles : Int) : leapDay (year + 400 * cycles) = leapDay year := by
  have leap := leapDay_cases year
  have leap' := leapDay_cases (year + 400 * cycles)
  omega

/-- The months from March on, by the days of the year from March on. -/
theorem monthFromMarch_bounds (day : Nat) (inYear : day < 366) :
    monthFromMarch day < 12 ∧ (153 * monthFromMarch day + 2) / 5 ≤ day ∧
      day < (153 * (monthFromMarch day + 1) + 2) / 5 := by
  unfold monthFromMarch
  omega

section

variable {year : Int} {month day : Nat}

/-- The dates from March to December. -/
theorem number_spring (spring : month < 10) (first : (153 * month + 2) / 5 ≤ day)
    (last : day < (153 * (month + 1) + 2) / 5) :
    let date : Date := ⟨year, month + 3, day - (153 * month + 2) / 5 + 1⟩
    date.Valid ∧ date.number = daysBeforeMarch year + day := by
  intro date
  have before := daysBeforeMonth_march year spring
  have length : monthLength year (month + 3) =
      (153 * (month + 1) + 2) / 5 - (153 * month + 2) / 5 := by
    interval_cases month <;> rfl
  constructor
  · refine ⟨Nat.le_add_left 1 _, Nat.succ_le_of_lt (Nat.add_lt_add_right spring 2),
      Nat.le_add_left 1 _, ?_⟩
    simp only [date]
    omega
  · simp only [date, Date.number]
    unfold daysBeforeMarch
    omega

/-- January and February belong to the year after the one that started in March. -/
theorem number_winter (winter : month = 10 ∨ month = 11) (first : (153 * month + 2) / 5 ≤ day)
    (last : day < (153 * (month + 1) + 2) / 5) (short : day < 365 + leapDay (year + 1)) :
    let date : Date := ⟨year + 1, month - 9, day - (153 * month + 2) / 5 + 1⟩
    date.Valid ∧ date.number = daysBeforeMarch year + day := by
  intro date
  have next := daysBeforeYear_next year
  have january : daysBeforeMonth (year + 1) 1 = 0 := rfl
  have february : daysBeforeMonth (year + 1) 2 = 31 := rfl
  have length : monthLength (year + 1) 1 = 31 := rfl
  have length' : monthLength (year + 1) 2 = 28 + leapDay (year + 1) := rfl
  rcases winter with rfl | rfl
  · refine ⟨⟨Nat.le_refl 1, Nat.le_add_left 1 11, Nat.le_add_left 1 _, ?_⟩, ?_⟩
    · simp only [date, Nat.reduceSub]
      omega
    · simp only [date, Date.number, Nat.reduceSub]
      unfold daysBeforeMarch
      omega
  · refine ⟨⟨Nat.le_add_left 1 1, Nat.le_add_left 2 10, Nat.le_add_left 1 _, ?_⟩, ?_⟩
    · simp only [date, Nat.reduceSub]
      omega
    · simp only [date, Date.number, Nat.reduceSub]
      unfold daysBeforeMarch
      omega

end

/-- **The date that is computed for a day is the date of that day.** It is a date of the calendar,
and counted by the rules of the calendar it has the number of the day. -/
theorem number_ofDays (days : Int) : (ofDays days).Valid ∧ (ofDays days).number = days := by
  obtain ⟨cycles, day, inCycle, split⟩ : ∃ (cycles : Int) (day : Nat), day < 146097 ∧
      days + epochShift = cycle * cycles + day := by
    unfold cycle
    exact ⟨(days + epochShift) / 146097, ((days + epochShift) % 146097).toNat, by omega, by omega⟩
  have ofCycle : (days + epochShift) / cycle = cycles := by
    unfold cycle at split ⊢
    omega
  have inside : ((days + epochShift) % cycle).toNat = day := by
    unfold cycle at split ⊢
    omega
  obtain ⟨place, year, short⟩ := yearOfCycle_bounds inCycle
  have leap := leapDay_cases (yearOfCycle day + 1)
  obtain ⟨inYear, first, last⟩ := monthFromMarch_bounds (dayOfYear day) (by omega)
  have march := daysBeforeMarch_eq (yearOfCycle day) cycles (by omega)
  have whole : daysBeforeMarch (yearOfCycle day + 400 * cycles) + dayOfYear day = days := by
    omega
  simp only [ofDays, ofCycle, inside]
  by_cases spring : monthFromMarch (dayOfYear day) < 10
  · have late : ¬ monthFromMarch (dayOfYear day) + 3 ≤ 2 := by omega
    rw [if_pos spring, if_neg late, Int.add_zero, ← whole]
    exact number_spring spring first last
  · have early : monthFromMarch (dayOfYear day) - 9 ≤ 2 := by omega
    have leap' := leapDay_cycles (yearOfCycle day + 1) cycles
    rw [if_neg spring, if_pos early, ← whole]
    refine number_winter (by omega) first last ?_
    have behind : (yearOfCycle day + 400 * cycles + 1 : Int) =
        yearOfCycle day + 1 + 400 * cycles := by ring
    rw [behind, leap']
    exact short

end Docroot.Calendar
