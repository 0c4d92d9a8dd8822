/-!
Days of the Gregorian calendar, extended without end in both directions, counted from 1 January
1970.
-/

namespace MongoShell

def isLeapYear (year : Int) : Bool := year % 4 == 0 && (year % 100 != 0 || year % 400 == 0)

/-- The days of a common year before the first of each month. -/
def daysBeforeMonths : List Nat := [0, 31, 59, 90, 120, 151, 181, 212, 243, 273, 304, 334]

/-- The days of a year before the first of a month, months counting from one. -/
def daysBeforeMonth (year : Int) (month : Nat) : Nat :=
  daysBeforeMonths.getD (month - 1) 0 + (if 2 < month ∧ isLeapYear year then 1 else 0)

def daysInMonth (year : Int) (month : Nat) : Nat :=
  if month = 2 then (if isLeapYear year then 29 else 28)
  else if month = 4 ∨ month = 6 ∨ month = 9 ∨ month = 11 then 30
  else 31

/-- The number of the first day of a year. -/
def yearStart (year : Int) : Int :=
  let elapsed := year - 1
  365 * elapsed + elapsed / 4 - elapsed / 100 + elapsed / 400 - 719162

/-- The number of a day; that of 1 January 1970 is zero. -/
def dayNumber (year : Int) (month day : Nat) : Int :=
  yearStart year + daysBeforeMonth year month + day - 1

/-- Whether there is such a day. -/
def isDay (year : Int) (month day : Nat) : Bool :=
  1 ≤ month && month ≤ 12 && 1 ≤ day && day ≤ daysInMonth year month

/-- The year that a day lies in. The mean length of a year gives it to within one. -/
def yearOfDay (number : Int) : Int :=
  let guess := number * 400 / 146097 + 1970
  if number < yearStart guess then guess - 1
  else if yearStart (guess + 1) ≤ number then guess + 1
  else guess

/-- The month that a day lies in: the last one that starts no later. -/
def monthOfDay (number : Int) : Nat :=
  let year := yearOfDay number
  ((List.range 12).filter fun month => dayNumber year (month + 1) 1 ≤ number).length

def dayOfMonth (number : Int) : Nat :=
  (number - dayNumber (yearOfDay number) (monthOfDay number) 1 + 1).toNat

end MongoShell
