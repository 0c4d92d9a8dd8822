import MongoShell.Proofs.Calendar.WrittenTime

/-! Which of the forms of a date reads a text of a time. The forms are tried in turn, and each text
is read by the first of them that fits it at all, as the very time that it writes: no form in front
of that one takes the text for another time. -/

namespace MongoShell

namespace TextReader

variable (t : WrittenTime) {rest : List Char}

theorem date_text (rest : List Char) :
    date (t.dateText ++ rest) = some (((t.year : Int), t.month, t.day), rest) := by
  obtain ⟨-, month, -, day⟩ := t.day_bounds
  simp only [WrittenTime.dateText, List.append_assoc, List.cons_append]
  rw [date, bind_read (year_padded t.year_lt _), bind_read (literal_self _ _),
    bind_read (number_two (by omega) _), bind_read (literal_self _ _),
    bind_read (number_two (by omega) _)]
  rfl

theorem hourAndMinute_text (rest : List Char) :
    hourAndMinute (t.minuteText ++ rest) = some ((t.hour, t.minute), rest) := by
  have hour := t.hour_lt
  have minute := t.minute_lt
  simp only [WrittenTime.minuteText, List.append_assoc, List.cons_append]
  rw [hourAndMinute, bind_read (number_two (by omega) _), bind_read (literal_self _ _),
    bind_read (number_two (by omega) _)]
  rfl

theorem hourAndMinute_last : hourAndMinute t.minuteText = some ((t.hour, t.minute), []) := by
  have read := hourAndMinute_text t []
  rwa [List.append_nil] at read

/-- Neither a digit nor a point goes on behind a fraction, or where one is left out. -/
def EndsFraction (rest : List Char) : Prop := ∀ c ∈ rest.head?, c.isDigit = false ∧ c ≠ '.'

theorem endsFraction_nil : EndsFraction [] := by rintro _ ⟨⟩

theorem endsFraction_signChar (negative : Bool) (rest : List Char) :
    EndsFraction (signChar negative :: rest) := by
  rintro _ ⟨⟩
  cases negative <;> decide

theorem fraction_text (ends : EndsFraction rest) :
    fraction (t.fractionText ++ rest) = some (t.millisecond, rest) := by
  unfold WrittenTime.fractionText WrittenTime.millisecond
  by_cases whole : t.fraction = []
  · rw [if_pos whole, List.nil_append, fraction_none fun c member => (ends c member).2, whole]
    rfl
  · rw [if_neg whole, List.cons_append]
    exact fraction_digits ⟨whole, t.fractionDigits⟩ fun c member => (ends c member).1

/-! Full times, each form with whatever may stand behind its fraction -/

/-- What a date and a time of day have behind the date. -/
def clock (separator : TextReader Unit) (year : Int) (month day : Nat) : TextReader Moment := do
  separator
  let clock ← hourAndMinute
  literal ':'
  let second ← number 2
  let millisecond ← fraction
  pure { year, month, day, hour := clock.1, minute := clock.2, second, millisecond, offset := 0 }

theorem dateAndTime_date (separator : TextReader Unit) (rest : List Char) :
    dateAndTime separator (t.dateText ++ rest) = clock separator t.year t.month t.day rest := by
  rw [dateAndTime, bind_read (date_text t _)]
  rfl

theorem dateAndTime_text {separator : TextReader Unit} (between : List Char)
    (parted : separator (between ++ (t.clockText ++ rest)) = some ((), t.clockText ++ rest))
    (ends : EndsFraction rest) :
    dateAndTime separator (t.dateText ++ (between ++ (t.clockText ++ rest))) =
      some (t.moment 0, rest) := by
  have second := t.second_lt
  rw [dateAndTime_date, clock, bind_read parted]
  simp only [WrittenTime.clockText, List.append_assoc, List.cons_append]
  rw [bind_read (hourAndMinute_text t _), bind_read (literal_self _ _),
    bind_read (number_two (by omega) _), bind_read (fraction_text t ends)]
  rfl

/-- What a full moment has behind its date. -/
def fullClock (year : Int) (month day : Nat) : TextReader Moment := do
  let _ ← char fun c => c == 'T' || c == 't' || c == ' '
  let hour ← digits 2 2
  literal ':'
  let minute ← digits 2 2
  literal ':'
  let second ← digits 2 2
  let millisecond ← fraction
  let offset ← zone
  pure { year, month, day, hour, minute, second, millisecond, offset }

theorem fullMoment_date (rest : List Char) :
    fullMoment (t.dateText ++ rest) = fullClock t.year t.month t.day rest := by
  obtain ⟨-, month, -, day⟩ := t.day_bounds
  have year := digits_padded (by decide) t.year_lt (by decide : 4 ≤ 4)
  simp only [WrittenTime.dateText, List.append_assoc, List.cons_append]
  rw [fullMoment, bind_read (year _), bind_read (literal_self _ _),
    bind_read (digits_two (by omega) _), bind_read (literal_self _ _),
    bind_read (digits_two (by omega) _)]
  rfl

theorem fullMoment_text {mark : Char} (parted : mark = 'T' ∨ mark = ' ')
    (ends : EndsFraction rest) :
    fullMoment (t.dateText ++ mark :: (t.clockText ++ rest)) =
      (zone rest).map fun read => (t.moment read.1, read.2) := by
  have hour := t.hour_lt
  have minute := t.minute_lt
  have second := t.second_lt
  have marked (rest : List Char) :
      char (fun c => c == 'T' || c == 't' || c == ' ') (mark :: rest) = some (mark, rest) := by
    rcases parted with rfl | rfl <;> rfl
  simp only [WrittenTime.clockText, WrittenTime.minuteText, List.append_assoc, List.cons_append]
  rw [fullMoment_date, fullClock, bind_read (marked _), bind_read (digits_two (by omega) _),
    bind_read (literal_self _ _), bind_read (digits_two (by omega) _), bind_read (literal_self _ _),
    bind_read (digits_two (by omega) _), bind_read (fraction_text t ends), bind_apply]
  cases zone rest <;> rfl

theorem looseMoment_text (ends : EndsFraction rest)
    (noBlank : ∀ c ∈ rest.head?, isWhiteSpace c = false) :
    looseMoment (t.dateText ++ 'T' :: (t.clockText ++ rest)) =
      (offset (skipWhile fun c => c == ':' || isWhiteSpace c) rest).map fun read =>
        (t.moment read.1, read.2) := by
  have read : dateAndTime (literal 'T') (t.dateText ++ 'T' :: (t.clockText ++ rest)) =
      some (t.moment 0, rest) :=
    dateAndTime_text t ['T'] (literal_self 'T' _) ends
  rw [looseMoment, bind_read read, bind_read (skipWhile_nothing noBlank), bind_apply]
  cases offset (skipWhile fun c => c == ':' || isWhiteSpace c) rest <;> rfl

/-! Texts that a form does not take -/

theorem dateAndTime_apart {separator : TextReader Unit} (apart : separator rest = none) :
    dateAndTime separator (t.dateText ++ rest) = none := by
  rw [dateAndTime_date, clock, bind_fail apart]

theorem looseMoment_apart (apart : literal 'T' rest = none) :
    looseMoment (t.dateText ++ rest) = none := by
  rw [looseMoment, bind_fail (dateAndTime_apart t apart)]

/-- Seconds are missed behind the minutes. -/
theorem dateAndTime_minute :
    dateAndTime (literal 'T') (t.dateText ++ 'T' :: t.minuteText) = none := by
  rw [dateAndTime_date, clock, bind_read (literal_self _ _), bind_read (hourAndMinute_last t)]
  rfl

theorem fullMoment_minute : fullMoment (t.dateText ++ 'T' :: t.minuteText) = none := by
  have hour := t.hour_lt
  have minute := t.minute_lt
  have marked (rest : List Char) :
      char (fun c => c == 'T' || c == 't' || c == ' ') ('T' :: rest) = some ('T', rest) := rfl
  rw [fullMoment_date, fullClock, bind_read (marked _), WrittenTime.minuteText,
    bind_read (digits_two (by omega) _), bind_read (literal_self _ _),
    bind_read (digits_two_last (by omega))]
  rfl

/-- A blank may stand for the mark between the date and the time, but no other mark. -/
theorem dateAndTime_blank :
    dateAndTime (skipWhile isWhiteSpace) (t.dateText ++ 'T' :: t.minuteText) = none := by
  rw [dateAndTime_date, clock, bind_read (skipWhile_nothing (by rintro _ ⟨⟩; rfl))]
  rfl

/-! Times without seconds and dates alone -/

theorem dateAndMinute_text (noSecond : t.second = 0) (noFraction : t.fraction = []) :
    dateAndMinute (t.dateText ++ 'T' :: t.minuteText) = some (t.moment 0, []) := by
  rw [dateAndMinute, bind_read (date_text t _)]
  dsimp only
  rw [bind_read (literal_self _ _), bind_read (hourAndMinute_last t), WrittenTime.moment,
    WrittenTime.millisecond, noSecond, noFraction]
  rfl

theorem dateAlone_text (noHour : t.hour = 0) (noMinute : t.minute = 0) (noSecond : t.second = 0)
    (noFraction : t.fraction = []) : dateAlone t.dateText = some (t.moment 0, []) := by
  have read : date t.dateText = some (((t.year : Int), t.month, t.day), []) := by
    simpa using date_text t []
  rw [dateAlone, bind_read read, WrittenTime.moment, WrittenTime.millisecond, noHour, noMinute,
    noSecond, noFraction]
  rfl

/-! The first form -/

/-- A text has one of the forms that are tried in turn, which reads it as a moment, and none in
front of that form reads it at all. -/
def FirstRead (text : List Char) (moment : Moment) : Prop :=
  ∃ earlier form later, momentForms = earlier ++ form :: later ∧
    (∀ other ∈ earlier, other text = none) ∧ form text = some (moment, [])

theorem FirstRead.instant?_eq {text : List Char} {moment : Moment} (first : FirstRead text moment)
    (valid : moment.isValid = true) : instant? text = some moment.milliseconds := by
  obtain ⟨earlier, form, later, order, none, read⟩ := first
  have found : momentForms.findSome? (fun form => Moment.ofForm? form text) = some moment := by
    refine List.findSome?_eq_some_iff.mpr ⟨earlier, form, later, order, ?_, fun other before => ?_⟩
    · rw [Moment.ofForm?, read]
      exact if_pos valid
    · rw [Moment.ofForm?, none other before]
  rw [instant?, found]
  rfl

end TextReader

namespace WrittenTime

open TextReader

variable {t : WrittenTime} {offset : Int} {text zone : List Char}

theorem ZoneText.near (written : ZoneText offset zone) : -1440 < offset ∧ offset < 1440 := by
  have bounds (negative : Bool) {hours minutes : Nat} (isHour : hours < 24)
      (isMinute : minutes < 60) : -1440 < offsetMinutes negative hours minutes ∧
        offsetMinutes negative hours minutes < 1440 := by
    unfold offsetMinutes
    split <;> omega
  cases written with
  | utc => decide
  | colon negative isHour isMinute => exact bounds negative isHour isMinute
  | bare negative isHour isMinute => exact bounds negative isHour isMinute

theorem ZoneText.ends (written : ZoneText offset zone) : EndsFraction zone := by
  cases written with
  | utc =>
    rintro _ ⟨⟩
    decide
  | colon negative => exact endsFraction_signChar negative _
  | bare negative => exact endsFraction_signChar negative _

theorem firstRead_plain : FirstRead (t.dateText ++ 'T' :: t.clockText) (t.moment 0) := by
  have noZone : fullMoment (t.dateText ++ 'T' :: t.clockText) = none := by
    simpa [zone_nil] using fullMoment_text t (.inl rfl) endsFraction_nil
  have noOffset : looseMoment (t.dateText ++ 'T' :: t.clockText) = none := by
    simpa [offset_nil] using looseMoment_text t endsFraction_nil (by simp)
  have read := dateAndTime_text t ['T'] (literal_self 'T' (t.clockText ++ [])) endsFraction_nil
  rw [List.append_nil] at read
  exact ⟨[fullMoment, looseMoment], _, _, rfl, by simp [noZone, noOffset], read⟩

theorem firstRead_blank : FirstRead (t.dateText ++ ' ' :: t.clockText) (t.moment 0) := by
  have noZone : fullMoment (t.dateText ++ ' ' :: t.clockText) = none := by
    simpa [zone_nil] using fullMoment_text t (.inr rfl) endsFraction_nil
  have noMark : literal 'T' (' ' :: t.clockText) = none :=
    literal_other (by rintro _ ⟨⟩; decide)
  have blank : skipWhile isWhiteSpace ([' '] ++ (t.clockText ++ [])) =
      some ((), t.clockText ++ []) := by
    refine skipWhile_append (List.forall_mem_singleton.mpr rfl) fun c first => ?_
    apply isWhiteSpace_of_isDigit
    rw [List.append_nil, clockText, minuteText, List.append_assoc] at first
    exact head_padded (by decide) (by have hour := t.hour_lt; omega) _ c first
  have read := dateAndTime_text t [' '] blank endsFraction_nil
  rw [List.append_nil] at read
  refine ⟨[fullMoment, looseMoment, dateAndTime (literal 'T')], _, _, rfl, ?_, read⟩
  simp [noZone, looseMoment_apart t noMark, dateAndTime_apart t noMark]

theorem firstRead_zoned (written : ZoneText offset zone) :
    FirstRead (t.dateText ++ 'T' :: (t.clockText ++ zone)) (t.moment offset) := by
  have full := fullMoment_text t (.inl rfl) written.ends
  cases written with
  | utc => exact ⟨[], fullMoment, _, rfl, by simp, full⟩
  | colon negative isHour isMinute =>
    rw [zone_colon isHour isMinute] at full
    exact ⟨[], fullMoment, _, rfl, by simp, full⟩
  | bare negative isHour isMinute =>
    rw [zone_bare isHour] at full
    have noBlank : isWhiteSpace (signChar negative) = false := by cases negative <;> rfl
    have loose := looseMoment_text t (ZoneText.bare negative isHour isMinute).ends
      (by rintro _ ⟨⟩; exact noBlank)
    rw [offset_bare isHour isMinute] at loose
    exact ⟨[fullMoment], looseMoment, _, rfl, by simpa using full, loose⟩

theorem firstRead_minute (noSecond : t.second = 0) (noFraction : t.fraction = []) :
    FirstRead (t.dateText ++ 'T' :: t.minuteText) (t.moment 0) := by
  have noOffset : looseMoment (t.dateText ++ 'T' :: t.minuteText) = none := by
    rw [looseMoment, bind_fail (dateAndTime_minute t)]
  refine ⟨[fullMoment, looseMoment, dateAndTime (literal 'T'),
    dateAndTime (skipWhile isWhiteSpace)], _, _, rfl, ?_, dateAndMinute_text t noSecond noFraction⟩
  simp [fullMoment_minute t, noOffset, dateAndTime_minute t, dateAndTime_blank t]

theorem firstRead_day (noHour : t.hour = 0) (noMinute : t.minute = 0) (noSecond : t.second = 0)
    (noFraction : t.fraction = []) : FirstRead t.dateText (t.moment 0) := by
  have nothing : t.dateText = t.dateText ++ [] := (List.append_nil _).symm
  have noZone : fullMoment t.dateText = none := by
    rw [nothing, fullMoment_date]
    rfl
  have noTime : dateAndTime (literal 'T') t.dateText = none := by
    rw [nothing, dateAndTime_date]
    rfl
  have noBlank : dateAndTime (skipWhile isWhiteSpace) t.dateText = none := by
    rw [nothing, dateAndTime_date]
    rfl
  have noOffset : looseMoment t.dateText = none := by
    rw [looseMoment, bind_fail noTime]
  have noClock : dateAndMinute t.dateText = none := by
    rw [nothing, dateAndMinute, bind_read (date_text t [])]
    rfl
  refine ⟨[fullMoment, looseMoment, dateAndTime (literal 'T'), dateAndTime (skipWhile isWhiteSpace),
    dateAndMinute], _, _, rfl, ?_, dateAlone_text t noHour noMinute noSecond noFraction⟩
  simp [noZone, noOffset, noTime, noBlank, noClock]

theorem Spells.firstRead (spells : t.Spells offset text) : FirstRead text (t.moment offset) := by
  cases spells with
  | plain => exact firstRead_plain
  | blank => exact firstRead_blank
  | zoned written => exact firstRead_zoned written
  | minute noSecond noFraction => exact firstRead_minute noSecond noFraction
  | day noHour noMinute noSecond noFraction =>
    exact firstRead_day noHour noMinute noSecond noFraction

theorem Spells.near (spells : t.Spells offset text) : -1440 < offset ∧ offset < 1440 := by
  cases spells with
  | zoned written => exact written.near
  | _ => decide

/-- Each text of a time is read as the instant of the time, whole milliseconds of it, less the
offset. -/
theorem Spells.instant?_eq (spells : t.Spells offset text) :
    instant? text = some (⌊t.seconds * 1000⌋ - 60000 * offset) := by
  obtain ⟨least, most⟩ := spells.near
  rw [spells.firstRead.instant?_eq (t.isValid_moment least most), milliseconds_moment]

end WrittenTime

end MongoShell
