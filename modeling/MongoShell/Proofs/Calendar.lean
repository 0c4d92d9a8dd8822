import Mathlib.Tactic.Common
import Mathlib.Tactic.IntervalCases
import MongoShell.Calendar

/-! Days in order. The months fill a year and the years follow one another without a gap, so the
number of a day lies between those of the first days of its year and of the next one, and each day
has the number behind that of the day before. -/

namespace MongoShell

def daysInYear (year : Int) : Nat := if isLeapYear year then 366 else 365

theorem isLeapYear_iff {year : Int} :
    isLeapYear year = true ↔ year % 4 = 0 ∧ (year % 100 ≠ 0 ∨ year % 400 = 0) := by
  simp [isLeapYear]

theorem yearStart_add_one (year : Int) :
    yearStart (year + 1) = yearStart year + daysInYear year := by
  simp only [yearStart, daysInYear]
  by_cases leap : isLeapYear year = true
  · rw [if_pos leap]
    have rule := isLeapYear_iff.mp leap
    omega
  · rw [if_neg leap]
    have rule := mt isLeapYear_iff.mpr leap
    omega

theorem yearStart_le {year other : Int} (before : year ≤ other) :
    yearStart year ≤ yearStart other := by
  simp only [yearStart]
  omega

/-! Months -/

theorem daysBeforeMonth_add_one (year : Int) {month : Nat} (first : 1 ≤ month) (last : month < 12) :
    daysBeforeMonth year (month + 1) = daysBeforeMonth year month + daysInMonth year month := by
  unfold daysBeforeMonth daysInMonth
  cases isLeapYear year <;> interval_cases month <;> rfl

theorem daysBeforeMonth_last (year : Int) :
    daysBeforeMonth year 12 + daysInMonth year 12 = daysInYear year := by
  unfold daysBeforeMonth daysInMonth daysInYear
  cases isLeapYear year <;> rfl

theorem daysBeforeMonth_le (year : Int) {month : Nat} (first : 1 ≤ month) (last : month ≤ 12) :
    daysBeforeMonth year month + daysInMonth year month ≤ daysInYear year := by
  unfold daysBeforeMonth daysInMonth daysInYear
  cases isLeapYear year <;> interval_cases month <;> decide

/-! Days -/

theorem isDay_iff {year : Int} {month day : Nat} :
    isDay year month day = true ↔
      (1 ≤ month ∧ month ≤ 12) ∧ 1 ≤ day ∧ day ≤ daysInMonth year month := by
  simp [isDay, and_assoc]

/-- The number of a day is one of its year. -/
theorem dayNumber_bounds {year : Int} {month day : Nat} (is : isDay year month day = true) :
    yearStart year ≤ dayNumber year month day ∧
      dayNumber year month day < yearStart (year + 1) := by
  obtain ⟨⟨first, last⟩, positive, within⟩ := isDay_iff.mp is
  have room := daysBeforeMonth_le year first last
  rw [yearStart_add_one]
  unfold dayNumber
  omega

/-- The day behind another one: in the same month if that has a further day, else the first of the
next month or of the next year. -/
inductive NextDay (year : Int) (month day : Nat) : Int → Nat → Nat → Prop
  | inMonth (further : day < daysInMonth year month) : NextDay year month day year month (day + 1)
  | inYear (ends : day = daysInMonth year month) (further : month < 12) :
      NextDay year month day year (month + 1) 1
  | newYear (ends : day = daysInMonth year month) (last : month = 12) :
      NextDay year month day (year + 1) 1 1

/-- Days are numbered one by one. -/
theorem NextDay.dayNumber_eq {year later : Int} {month day laterMonth laterDay : Nat}
    (next : NextDay year month day later laterMonth laterDay)
    (is : isDay year month day = true) :
    dayNumber later laterMonth laterDay = dayNumber year month day + 1 := by
  obtain ⟨⟨first, last⟩, positive, within⟩ := isDay_iff.mp is
  unfold dayNumber
  cases next with
  | inMonth further => omega
  | inYear ends further =>
    rw [daysBeforeMonth_add_one year first further, ← ends]
    omega
  | newYear ends last =>
    have months := daysBeforeMonth_last year
    have start : daysBeforeMonth (year + 1) 1 = 0 := rfl
    rw [yearStart_add_one, start, ← months, ends, last]
    omega

example : dayNumber 1970 1 1 = 0 ∧ dayNumber 1900 3 1 = dayNumber 1900 2 28 + 1 := by decide

end MongoShell
