import MongoShell.Calendar
import MongoShell.Number.Numeral
import MongoShell.Text.Blank

/-!
Instants in text: ISO 8601 dates and times, read with and without an offset from UTC. Without an
offset a time is in UTC. An instant is its count of milliseconds from the start of 1970; what a text
gives beyond milliseconds is cut off.
-/

namespace MongoShell

/-- A date and time of day as written, with the offset of the local clock from UTC in minutes. -/
structure Moment where
  year : Int
  month : Nat
  day : Nat
  hour : Nat
  minute : Nat
  /-- Through 60; a leap second counts as the first one of the next minute. -/
  second : Nat
  millisecond : Nat
  offset : Int
deriving DecidableEq, Repr

namespace Moment

def millisecondsPerDay : Int := 86400000

/-- The years that dates are kept for. -/
def minYear : Int := -262143

def maxYear : Int := 262142

/-- Milliseconds from the start of 1970. -/
def milliseconds (m : Moment) : Int :=
  let minutes := ((m.hour : Int) * 60 + m.minute) - m.offset
  dayNumber m.year m.month m.day * millisecondsPerDay
    + (minutes * 60 + m.second) * 1000 + m.millisecond

/-- The moment in front of a leap second, which belongs to the same minute; any other moment as it
is. -/
def beforeLeap (m : Moment) : Moment := { m with second := min m.second 59 }

/-- Whether the date and the time of day exist, and the instant lies in the years kept. The last of
those years may end in a leap second. -/
def isValid (m : Moment) : Bool :=
  minYear ≤ m.year && m.year ≤ maxYear && isDay m.year m.month m.day
    && m.hour ≤ 23 && m.minute ≤ 59 && m.second ≤ 60
    && yearStart minYear * millisecondsPerDay ≤ m.beforeLeap.milliseconds
    && m.beforeLeap.milliseconds < yearStart (maxYear + 1) * millisecondsPerDay

end Moment

/-- Reads something from the front of a text and leaves the rest, or fails. -/
abbrev TextReader := StateT (List Char) Option

namespace TextReader

def char (p : Char → Bool) : TextReader Char
  | [] => none
  | c :: text => if p c then some (c, text) else none

def literal (c : Char) : TextReader Unit := do
  let _ ← char (· == c)

/-- A number of `least` to `most` digits; as many are read as there are. -/
def digits (least most : Nat) : TextReader Nat := fun text =>
  let found := (text.take most).takeWhile Char.isDigit
  if least ≤ found.length then some (digitsValue found, text.drop found.length) else none

/-- Characters that pass the test, if there are any, are left out. -/
def skipWhile (p : Char → Bool) : TextReader Unit := fun text => some ((), text.dropWhile p)

/-- The milliseconds of a fraction of a second: a point and digits, of which the first three count.
There may be no fraction. -/
def fraction : TextReader Nat
  | '.' :: text =>
    let found := text.takeWhile Char.isDigit
    if found = [] then none
    else some (digitsValue ((found ++ ['0', '0']).take 3), text.dropWhile Char.isDigit)
  | text => some (0, text)

/-- A number of at most `width` digits, with white space allowed in front. -/
def number (width : Nat) : TextReader Nat := do
  skipWhile isWhiteSpace
  digits 1 width

/-- A year: at most four digits, or a sign and any number of digits. -/
def year : TextReader Int := do
  skipWhile isWhiteSpace
  fun text =>
    match text with
    | '-' :: text => (digits 1 text.length text).map fun (n, rest) => (-(n : Int), rest)
    | '+' :: text => (digits 1 text.length text).map fun (n, rest) => ((n : Int), rest)
    | text => (digits 1 4 text).map fun (n, rest) => ((n : Int), rest)

/-- The sign of an offset, whether negative; a minus sign proper will do for a hyphen. -/
def offsetSign : TextReader Bool := do
  let c ← char fun c => c == '+' || c == '-' || c == '\u2212'
  pure (c != '+')

/-- An offset in minutes, of less than a day: hours and minutes of two digits each, parted by what
`separator` reads. -/
def offset (separator : TextReader Unit) : TextReader Int := do
  let negative ← offsetSign
  let hours ← digits 2 2
  separator
  let minutes ← digits 2 2
  let total : Int := hours * 60 + minutes
  if minutes ≤ 59 ∧ hours ≤ 23 then pure (if negative then -total else total) else failure

/-- An offset with a colon, or the letter for UTC itself. -/
def zone : TextReader Int
  | 'Z' :: text => some (0, text)
  | 'z' :: text => some (0, text)
  | text => offset (literal ':') text

/-- All digits at their full width, and a zone. -/
def fullMoment : TextReader Moment := do
  let year ← digits 4 4
  literal '-'
  let month ← digits 2 2
  literal '-'
  let day ← digits 2 2
  let _ ← char fun c => c == 'T' || c == 't' || c == ' '
  let hour ← digits 2 2
  literal ':'
  let minute ← digits 2 2
  literal ':'
  let second ← digits 2 2
  let millisecond ← fraction
  let offset ← zone
  pure { year, month, day, hour, minute, second, millisecond, offset }

/-- A date, its numbers of any width. -/
def date : TextReader (Int × Nat × Nat) := do
  let year ← year
  literal '-'
  let month ← number 2
  literal '-'
  let day ← number 2
  pure (year, month, day)

/-- Hours and minutes. -/
def hourAndMinute : TextReader (Nat × Nat) := do
  let hour ← number 2
  literal ':'
  let minute ← number 2
  pure (hour, minute)

/-- A date and a time of day through the fraction, with `separator` in between. -/
def dateAndTime (separator : TextReader Unit) : TextReader Moment := do
  let (year, month, day) ← date
  separator
  let (hour, minute) ← hourAndMinute
  literal ':'
  let second ← number 2
  let millisecond ← fraction
  pure { year, month, day, hour, minute, second, millisecond, offset := 0 }

/-- A date, a time of day and an offset, whose parts may stand together or be parted by colons and
white space. -/
def looseMoment : TextReader Moment := do
  let moment ← dateAndTime (literal 'T')
  skipWhile isWhiteSpace
  let offset ← offset (skipWhile fun c => c == ':' || isWhiteSpace c)
  pure { moment with offset }

def dateAndMinute : TextReader Moment := do
  let (year, month, day) ← date
  literal 'T'
  let (hour, minute) ← hourAndMinute
  pure { year, month, day, hour, minute, second := 0, millisecond := 0, offset := 0 }

def dateAlone : TextReader Moment := do
  let (year, month, day) ← date
  pure { year, month, day, hour := 0, minute := 0, second := 0, millisecond := 0, offset := 0 }

/-- The forms that a date may have, in the order in which they are tried. -/
def momentForms : List (TextReader Moment) :=
  [fullMoment, looseMoment, dateAndTime (literal 'T'), dateAndTime (skipWhile isWhiteSpace),
    dateAndMinute, dateAlone]

end TextReader

/-- The moment that a whole text writes in one form, if there is such a moment. -/
def Moment.ofForm? (form : TextReader Moment) (text : List Char) : Option Moment :=
  match form text with
  | some (moment, []) => if moment.isValid then some moment else none
  | _ => none

/-- The instant that a text writes, in milliseconds from the start of 1970. -/
def instant? (text : List Char) : Option Int :=
  (TextReader.momentForms.findSome? fun form => Moment.ofForm? form text).map Moment.milliseconds

/-- Digits of a number, filled up with zeros in front. -/
def paddedDigits (width n : Nat) : List Char :=
  let digits := Nat.toDigits 10 n
  List.replicate (width - digits.length) '0' ++ digits

/-- Whether an instant lies in the years 1970 through 9999, those that are written in text. -/
def isTextYear (milliseconds : Int) : Bool :=
  0 ≤ milliseconds && milliseconds < yearStart 10000 * Moment.millisecondsPerDay

/-- An instant of those years in UTC; a fraction is written only where there is one, without zeros
at its end. -/
def instantText (milliseconds : Int) : List Char :=
  let day := milliseconds / Moment.millisecondsPerDay
  let rest := (milliseconds % Moment.millisecondsPerDay).toNat
  let fraction := ((paddedDigits 3 (rest % 1000)).reverse.dropWhile (· == '0')).reverse
  let second := rest / 1000
  paddedDigits 4 (yearOfDay day).toNat ++ '-' :: paddedDigits 2 (monthOfDay day)
    ++ '-' :: paddedDigits 2 (dayOfMonth day)
    ++ 'T' :: paddedDigits 2 (second / 3600)
    ++ ':' :: paddedDigits 2 (second / 60 % 60)
    ++ ':' :: paddedDigits 2 (second % 60)
    ++ (if fraction = [] then [] else '.' :: fraction) ++ ['Z']

end MongoShell
