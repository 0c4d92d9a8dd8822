import Mathlib.Data.Rat.Floor
import MongoShell.Proofs.Calendar
import MongoShell.Proofs.Calendar.Reader

/-! Times of years of four digits and their texts. A time is an exact number of seconds; a clock
with an offset that shows it is the moment of the whole milliseconds of that number, less the
offset, and always lies in the years that dates are kept for. -/

namespace MongoShell

/-- A date and a time of day that exist, in a year of four digits, with the digits of a fraction of
a second, if it has one. -/
structure WrittenTime where
  year : Nat
  month : Nat
  day : Nat
  hour : Nat
  minute : Nat
  second : Nat
  fraction : List Char
  year_lt : year < 10000
  dayExists : isDay year month day = true
  hour_lt : hour < 24
  minute_lt : minute < 60
  second_lt : second < 60
  fractionDigits : ∀ c ∈ fraction, c.isDigit = true

namespace WrittenTime

variable (t : WrittenTime)

/-! Values -/

/-- Seconds from the start of 1970 to the time on a clock that shows UTC. -/
def seconds : ℚ :=
  ((((dayNumber t.year t.month t.day * 24 + t.hour) * 60 + t.minute) * 60 + t.second : Int) : ℚ)
    + (digitsValue t.fraction : ℚ) / 10 ^ t.fraction.length

/-- The whole milliseconds of the fraction. -/
def millisecond : Nat := digitsValue t.fraction * 1000 / 10 ^ t.fraction.length

def moment (offset : Int) : Moment where
  year := t.year
  month := t.month
  day := t.day
  hour := t.hour
  minute := t.minute
  second := t.second
  millisecond := t.millisecond
  offset := offset

theorem milliseconds_moment (offset : Int) :
    (t.moment offset).milliseconds = ⌊t.seconds * 1000⌋ - 60000 * offset := by
  have scaled : t.seconds * 1000 =
      (((((dayNumber t.year t.month t.day * 24 + t.hour) * 60 + t.minute) * 60 + t.second) * 1000 :
        Int) : ℚ) +
        ((digitsValue t.fraction * 1000 : Nat) : ℚ) / ((10 ^ t.fraction.length : Nat) : ℚ) := by
    rw [seconds]
    push_cast
    ring
  rw [scaled, Int.floor_intCast_add, Rat.floor_natCast_div_natCast]
  simp only [Moment.milliseconds, moment, millisecond, Moment.millisecondsPerDay]
  omega

theorem millisecond_lt : t.millisecond < 1000 := by
  have below := digitsValue_lt t.fractionDigits
  apply Nat.div_lt_of_lt_mul
  rw [Nat.mul_comm]
  omega

theorem day_bounds : 1 ≤ t.month ∧ t.month ≤ 12 ∧ 1 ≤ t.day ∧ t.day ≤ 31 := by
  obtain ⟨⟨first, last⟩, positive, within⟩ := isDay_iff.mp t.dayExists
  have longest : daysInMonth t.year t.month ≤ 31 := by
    unfold daysInMonth
    split_ifs <;> decide
  exact ⟨first, last, positive, within.trans longest⟩

/-- The offset of a clock takes the time out of its years by a day at most. -/
theorem milliseconds_bounds {offset : Int} (least : -1440 < offset) (most : offset < 1440) :
    (yearStart 0 - 1) * Moment.millisecondsPerDay < (t.moment offset).milliseconds ∧
      (t.moment offset).milliseconds < (yearStart 10000 + 1) * Moment.millisecondsPerDay := by
  obtain ⟨early, late⟩ := dayNumber_bounds t.dayExists
  have start := yearStart_le (Int.natCast_nonneg t.year)
  have stop : yearStart (t.year + 1) ≤ yearStart 10000 := yearStart_le (Int.ofNat_le.mpr t.year_lt)
  have hour := t.hour_lt
  have minute := t.minute_lt
  have second := t.second_lt
  have millisecond := t.millisecond_lt
  simp only [Moment.milliseconds, moment, Moment.millisecondsPerDay]
  omega

theorem beforeLeap_moment (offset : Int) : (t.moment offset).beforeLeap = t.moment offset := by
  have noLeap : min t.second 59 = t.second := Nat.min_eq_left (Nat.le_of_lt_succ t.second_lt)
  rw [Moment.beforeLeap]
  change { t.moment offset with second := min t.second 59 } = _
  rw [noLeap]
  rfl

theorem isValid_moment {offset : Int} (least : -1440 < offset) (most : offset < 1440) :
    (t.moment offset).isValid = true := by
  obtain ⟨after, before⟩ := t.milliseconds_bounds least most
  have earliest : yearStart Moment.minYear * Moment.millisecondsPerDay ≤
      (yearStart 0 - 1) * Moment.millisecondsPerDay := by decide
  have latest : (yearStart 10000 + 1) * Moment.millisecondsPerDay ≤
      yearStart (Moment.maxYear + 1) * Moment.millisecondsPerDay := by decide
  have firstYear : Moment.minYear ≤ (t.year : Int) := le_trans (by decide) (Int.natCast_nonneg _)
  have lastYear : (t.year : Int) ≤ Moment.maxYear :=
    le_trans (Int.ofNat_le.mpr t.year_lt.le) (by decide)
  have inSecond : t.second ≤ 60 := t.second_lt.le
  simp only [Moment.isValid, beforeLeap_moment, Bool.and_eq_true, decide_eq_true_eq]
  exact ⟨⟨⟨⟨⟨⟨⟨firstYear, lastYear⟩, t.dayExists⟩, Nat.le_of_lt_succ t.hour_lt⟩,
    Nat.le_of_lt_succ t.minute_lt⟩, inSecond⟩, earliest.trans after.le⟩, before.trans_le latest⟩

/-! Texts -/

def dateText : List Char :=
  paddedDigits 4 t.year ++ '-' :: (paddedDigits 2 t.month ++ '-' :: paddedDigits 2 t.day)

def minuteText : List Char := paddedDigits 2 t.hour ++ ':' :: paddedDigits 2 t.minute

def fractionText : List Char := if t.fraction = [] then [] else '.' :: t.fraction

/-- The time of day through the fraction. -/
def clockText : List Char := t.minuteText ++ ':' :: (paddedDigits 2 t.second ++ t.fractionText)

/-- The texts of an offset from UTC, which is given in minutes. -/
inductive ZoneText : Int → List Char → Prop
  | utc : ZoneText 0 ['Z']
  | colon (negative : Bool) {hours minutes : Nat} (isHour : hours < 24) (isMinute : minutes < 60) :
      ZoneText (TextReader.offsetMinutes negative hours minutes)
        (TextReader.signChar negative :: (paddedDigits 2 hours ++ ':' :: paddedDigits 2 minutes))
  | bare (negative : Bool) {hours minutes : Nat} (isHour : hours < 24) (isMinute : minutes < 60) :
      ZoneText (TextReader.offsetMinutes negative hours minutes)
        (TextReader.signChar negative :: (paddedDigits 2 hours ++ paddedDigits 2 minutes))

/-- The texts of a time, each with the offset of its clock from UTC. -/
inductive Spells : Int → List Char → Prop
  | plain : Spells 0 (t.dateText ++ 'T' :: t.clockText)
  | blank : Spells 0 (t.dateText ++ ' ' :: t.clockText)
  | zoned {offset : Int} {zone : List Char} (written : ZoneText offset zone) :
      Spells offset (t.dateText ++ 'T' :: (t.clockText ++ zone))
  | minute (noSecond : t.second = 0) (noFraction : t.fraction = []) :
      Spells 0 (t.dateText ++ 'T' :: t.minuteText)
  | day (noHour : t.hour = 0) (noMinute : t.minute = 0) (noSecond : t.second = 0)
      (noFraction : t.fraction = []) : Spells 0 t.dateText

end WrittenTime

end MongoShell
