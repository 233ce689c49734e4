import Chronicle.Calendar
import Mathlib.Tactic.IntervalCases
import Mathlib.Tactic.SplitIfs

-- Counting days and naming dates are inverse to each other: every day has a date
-- that exists, and that date has the day.

namespace Chronicle.Calendar

-- A day of a month that has so many days.
structure Date.Exists (date : Date) : Prop where
  month_pos : 1 ≤ date.month
  month_le : date.month ≤ 12
  day_pos : 1 ≤ date.day
  day_le : date.day ≤ daysInMonth date.year date.month

theorem date?_of_exists {date : Date} (h : date.Exists) (hlow : minYear ≤ date.year)
    (hhigh : date.year ≤ maxYear) : date? date.year date.month date.day = some date := by
  rw [date?, if_pos ⟨hlow, hhigh, h.month_pos, h.month_le, h.day_pos, h.day_le⟩]

section Years

variable {dayOfEra year : Int}

-- The days before a year of an era are those of its years and of the leap days
-- among them. The year that a day is said to be in begins before the day, and the
-- day is its last but one or earlier, or the leap day.
theorem yearOfEra_bounds (hlow : 0 ≤ dayOfEra) (hhigh : dayOfEra < 146097)
    (hyear : year = (dayOfEra - dayOfEra / 1460 + dayOfEra / 36524 - dayOfEra / 146096) / 365) :
    (0 ≤ year ∧ year < 400) ∧ 365 * year + year / 4 - year / 100 ≤ dayOfEra ∧
      dayOfEra ≤ 365 * year + year / 4 - year / 100 + 365 ∧
      (dayOfEra = 365 * year + year / 4 - year / 100 + 365 →
        (year + 1) % 4 = 0 ∧ ((year + 1) % 100 ≠ 0 ∨ (year + 1) % 400 = 0)) := by
  -- The century decides, and the last day of the era is a leap day in none of them.
  have hcentury : dayOfEra / 36524 = 0 ∨ dayOfEra / 36524 = 1 ∨ dayOfEra / 36524 = 2 ∨
      dayOfEra / 36524 = 3 ∨ dayOfEra = 146096 := by omega
  rcases hcentury with h | h | h | h | h
  case inr.inr.inr.inr =>
    subst h
    subst hyear
    decide
  all_goals
    have hnotLast : dayOfEra / 146096 = 0 := by omega
    rw [h, hnotLast] at hyear
    have hhundreds : year / 100 = dayOfEra / 36524 := by omega
    have hcycle : year / 4 ≤ dayOfEra / 1460 := by omega
    have hcycle' : dayOfEra / 1460 ≤ year / 4 + 1 := by omega
    rw [h] at hhundreds
    rw [hhundreds]
    refine ⟨by omega, by omega, by omega, ?_⟩
    intro hleap
    have hnext : dayOfEra / 1460 = year / 4 + 1 := by omega
    have hthird : year % 4 = 3 := by omega
    omega

end Years

-- The month of a day of a year that begins in March, and the day's place in it.
theorem month_bounds {dayOfYear month : Nat} (h : dayOfYear ≤ 365)
    (hmonth : month = (5 * dayOfYear + 2) / 153) :
    month ≤ 11 ∧ (153 * month + 2) / 5 ≤ dayOfYear ∧
      dayOfYear < (153 * (month + 1) + 2) / 5 := by
  omega

-- The parts that a day is taken to: the era, the year of the era and the day of
-- the year, both counted from March.
structure Parts (days era year : Int) (dayOfYear : Nat) : Prop where
  days_eq : days = era * 146097 + (365 * year + year / 4 - year / 100 + dayOfYear) - 719468
  year_nonneg : 0 ≤ year
  year_lt : year < 400
  dayOfYear_le : dayOfYear ≤ 365
  leap : dayOfYear = 365 →
    (year + 1) % 4 = 0 ∧ ((year + 1) % 100 ≠ 0 ∨ (year + 1) % 400 = 0)

-- Months are numbered from March here.
def dateOf (year : Int) (dayOfYear : Nat) : Date :=
  let shifted := (5 * dayOfYear + 2) / 153
  let month := if shifted < 10 then shifted + 3 else shifted - 9
  ⟨if month ≤ 2 then year + 1 else year, month, dayOfYear - (153 * shifted + 2) / 5 + 1⟩

theorem ofDays_eq (days : Int) :
    ∃ era year dayOfYear, Parts days era year dayOfYear ∧
      Date.ofDays days = dateOf (year + era * 400) dayOfYear := by
  generalize hday : (days + 719468) % 146097 = dayOfEra
  generalize hyear :
    (dayOfEra - dayOfEra / 1460 + dayOfEra / 36524 - dayOfEra / 146096) / 365 = year
  obtain ⟨⟨hnonneg, hlt⟩, hbegin, hend, hleap⟩ :=
    yearOfEra_bounds (by omega) (by omega) hyear.symm
  generalize hrest : dayOfEra - (365 * year + year / 4 - year / 100) = rest
  have hcast : (rest.toNat : Int) = rest := by omega
  refine ⟨(days + 719468) / 146097, year, rest.toNat, ?_, ?_⟩
  · exact ⟨by omega, hnonneg, hlt, by omega, fun hlast => hleap (by omega)⟩
  · have hmonth : ((5 * rest + 2) / 153).toNat = (5 * rest.toNat + 2) / 153 := by omega
    have hbounds := month_bounds (by omega : rest.toNat ≤ 365) rfl
    simp only [Date.ofDays, dateOf, hday, hyear, hrest, hmonth]
    congr 1
    omega

theorem exists_dateOf {year : Int} {dayOfYear : Nat} (h : dayOfYear ≤ 365)
    (hleap : dayOfYear = 365 → isLeap (year + 1) = true) : (dateOf year dayOfYear).Exists := by
  obtain ⟨hmonth, hbegin, hend⟩ := month_bounds h rfl
  unfold dateOf
  generalize (5 * dayOfYear + 2) / 153 = month at *
  -- February comes last, and has its leap day on the last day of the year.
  by_cases hlast : month = 11
  · subst hlast
    refine ⟨by simp, by simp, by simp, ?_⟩
    by_cases hday : dayOfYear = 365
    · simp [daysInMonth, hleap hday, hday]
    · simp only [daysInMonth]
      split_ifs <;> omega
  · have hnot : month ≤ 10 := by omega
    interval_cases month
    all_goals
      refine ⟨by simp, by simp, by simp, ?_⟩
      simp [daysInMonth]
      omega

theorem toDays_dateOf {days era year : Int} {dayOfYear : Nat} (h : Parts days era year dayOfYear) :
    (dateOf (year + era * 400) dayOfYear).toDays = days := by
  obtain ⟨hdays, hnonneg, hlt, hday, -⟩ := h
  obtain ⟨hmonth, hbegin, hend⟩ := month_bounds hday rfl
  unfold dateOf
  generalize (5 * dayOfYear + 2) / 153 = month at *
  have hyear : (year + era * 400) / 400 = era ∧ (year + era * 400) % 400 = year := by omega
  simp only [Date.toDays, daysBeforeMonth]
  by_cases hearly : month < 10
  · have hlate : ¬ month + 3 ≤ 2 := by omega
    have hback : (month + 3 + 9) % 12 = month := by omega
    simp only [hearly, if_true, hlate, if_false, hback, hyear]
    omega
  · have hlate : month - 9 ≤ 2 := by omega
    have hback : (month - 9 + 9) % 12 = month := by omega
    simp only [hearly, if_false, hlate, if_true, hback, Int.add_sub_cancel, hyear]
    omega

theorem isLeap_iff {year : Int} :
    isLeap year = true ↔ year % 4 = 0 ∧ (year % 100 ≠ 0 ∨ year % 400 = 0) := by
  simp [isLeap]

theorem exists_ofDays (days : Int) : (Date.ofDays days).Exists := by
  obtain ⟨era, year, dayOfYear, hparts, hdate⟩ := ofDays_eq days
  rw [hdate]
  refine exists_dateOf hparts.dayOfYear_le fun hlast => isLeap_iff.mpr ?_
  have hleap := hparts.leap hlast
  omega

theorem toDays_ofDays (days : Int) : (Date.ofDays days).toDays = days := by
  obtain ⟨era, year, dayOfYear, hparts, hdate⟩ := ofDays_eq days
  rw [hdate, toDays_dateOf hparts]

theorem daysInMonth_le (year : Int) (month : Nat) : daysInMonth year month ≤ 31 := by
  unfold daysInMonth
  split_ifs <;> omega

-- The days of the years that are written with four digits.
theorem toDays_bounds {date : Date} (h : date.Exists) (hlow : 0 ≤ date.year)
    (hhigh : date.year ≤ 9999) : -719528 ≤ date.toDays ∧ date.toDays ≤ 2932896 := by
  obtain ⟨year, month, day⟩ := date
  obtain ⟨hmonth, hmonth', hday, hday'⟩ := h
  have hlong := daysInMonth_le year month
  simp only [Date.toDays] at *
  split_ifs with hearly
  · have hbefore : 306 ≤ daysBeforeMonth month ∧ daysBeforeMonth month ≤ 337 := by
      unfold daysBeforeMonth
      omega
    generalize daysBeforeMonth month = before at *
    omega
  · have hbefore : daysBeforeMonth month ≤ 275 := by
      unfold daysBeforeMonth
      omega
    generalize daysBeforeMonth month = before at *
    omega

end Chronicle.Calendar
