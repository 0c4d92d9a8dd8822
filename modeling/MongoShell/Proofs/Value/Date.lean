import Mathlib.Tactic.NormNum
import MongoShell.Proofs.Calendar.Spelling
import MongoShell.Proofs.Value.Call

/-! Dates from their texts. All texts of one time make the same date, that of the time in whole
milliseconds, and an offset from UTC moves it by just that offset. -/

namespace MongoShell

/-- The calls that write a time by one of its texts, on a clock of some offset from UTC. -/
inductive Expr.WritesTime (t : WrittenTime) (offset : Int) : Expr → Prop
  | mk {e : Expr} {name : String} {text : List Char} (place : Span)
      (named : name = "ISODate" ∨ name = "Date") (spells : t.Spells offset text)
      (calls : e.Calls name [.string place (String.ofList text)]) : WritesTime t offset e

namespace Value

theorem dateOf_eq_ok {text : List Char} {milliseconds : Int} (now : Int) (place : Span)
    (read : instant? text = some milliseconds) :
    dateOf now [.string place (String.ofList text)] = .ok (.date (Int64.ofInt milliseconds)) := by
  rw [dateOf, String.toList_ofList, read]

end Value

/-- Times of four-digit years are well within 64 bits. -/
theorem WrittenTime.toInt_milliseconds (t : WrittenTime) {offset : Int} (least : -1440 < offset)
    (most : offset < 1440) :
    (Int64.ofInt (⌊t.seconds * 1000⌋ - 60000 * offset)).toInt =
      ⌊t.seconds * 1000⌋ - 60000 * offset := by
  obtain ⟨after, before⟩ := t.milliseconds_bounds least most
  rw [milliseconds_moment] at after before
  apply Int64.toInt_ofInt_of_le
  · exact le_trans (by decide) after.le
  · exact before.trans_le (by decide)

theorem Expr.WritesTime.ofExpr_eq {t : WrittenTime} {offset : Int} {e : Expr}
    (writes : e.WritesTime t offset) (fresh : Fresh) :
    Value.ofExpr fresh e = .ok (.date (Int64.ofInt (⌊t.seconds * 1000⌋ - 60000 * offset))) := by
  obtain ⟨place, named, spells, calls⟩ := writes
  have date := Value.dateOf_eq_ok fresh.now place spells.instant?_eq
  rcases named with rfl | rfl
  · exact calls.ofExpr_eq .date rfl fun _ => date
  · exact calls.ofExpr_eq .date rfl fun _ => date

/-- All spellings of an instant are the same date. For every time of a four-digit year there is one
date, its exact number of seconds in whole milliseconds, rounded down, that is the value of each
call with a text of the time in UTC: with a `T` or a blank between date and time, with `Z` behind it
or an offset of zero, with or without a colon, and without seconds or as a date alone where what is
missing is zero. A text with an offset is that date less the offset. -/
theorem Expr.date_spellings_agree (t : WrittenTime) :
    ∃ date : Int64, date.toInt = ⌊t.seconds * 1000⌋ ∧
      (∀ e : Expr, e.WritesTime t 0 → ∀ fresh, Value.ofExpr fresh e = .ok (.date date)) ∧
      ∀ offset (e : Expr), e.WritesTime t offset →
        ∃ moved : Int64, moved.toInt = date.toInt - 60000 * offset ∧
          ∀ fresh, Value.ofExpr fresh e = .ok (.date moved) := by
  have whole :
      (Int64.ofInt (⌊t.seconds * 1000⌋ - 60000 * 0)).toInt = ⌊t.seconds * 1000⌋ - 60000 * 0 :=
    t.toInt_milliseconds (by decide) (by decide)
  rw [mul_zero, sub_zero] at whole
  refine ⟨_, whole, fun e writes fresh => ?_, fun offset e writes => ⟨_, ?_, writes.ofExpr_eq⟩⟩
  · have value := writes.ofExpr_eq fresh
    rwa [mul_zero, sub_zero] at value
  · obtain ⟨place, named, spells, calls⟩ := writes
    rw [whole]
    exact t.toInt_milliseconds spells.near.1 spells.near.2

/-- A tenth of a millisecond before 1970. -/
def WrittenTime.lastTick : WrittenTime where
  year := 1969
  month := 12
  day := 31
  hour := 23
  minute := 59
  second := 59
  fraction := "9999".toList
  year_lt := by decide
  dayExists := by decide
  hour_lt := by decide
  minute_lt := by decide
  second_lt := by decide
  fractionDigits := List.all_eq_true.mp rfl

theorem WrittenTime.seconds_lastTick : lastTick.seconds = -1 / 10000 := by
  have days : dayNumber lastTick.year lastTick.month lastTick.day = -1 := by decide
  have digits : digitsValue lastTick.fraction = 9999 := by decide
  have length : lastTick.fraction.length = 4 := rfl
  rw [seconds, days, digits, length]
  norm_num [lastTick]

/-- A fraction of four digits before 1970 is rounded down, and an offset takes the time into 1970.
-/
theorem Expr.last_tick_in_two_zones :
    (∀ fresh, Value.ofExpr fresh (.call nowhere (.identifier nowhere "ISODate")
      [.string nowhere "1969-12-31 23:59:59.9999"]) = .ok (.date (-1))) ∧
    ∀ fresh, Value.ofExpr fresh (.construct nowhere (.call nowhere (.identifier nowhere "Date")
      [.string nowhere "1969-12-31T23:59:59.9999-2359"])) = .ok (.date 86339999) := by
  obtain ⟨date, whole, inUtc, elsewhere⟩ := date_spellings_agree .lastTick
  have floor : ⌊WrittenTime.lastTick.seconds * 1000⌋ = -1 := by
    rw [WrittenTime.seconds_lastTick, Int.floor_eq_iff]
    norm_num
  rw [floor] at whole
  obtain rfl : date = -1 := Int64.toInt_inj.mp whole
  constructor
  · exact inUtc _ ⟨nowhere, .inl rfl, .blank, .plain _ _⟩
  · obtain ⟨moved, later, value⟩ := elsewhere _ _
      ⟨nowhere, .inr rfl, .zoned (.bare true (by decide : 23 < 24) (by decide : 59 < 60)),
        .new _ _ _⟩
    obtain rfl : moved = 86339999 := Int64.toInt_inj.mp later
    exact value

end MongoShell
