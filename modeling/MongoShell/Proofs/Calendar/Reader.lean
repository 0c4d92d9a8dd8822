import Mathlib.Data.List.TakeWhile
import MongoShell.Calendar.Instant
import MongoShell.Proofs.Number.Numeral

/-! What the readers of dates and times take from the front of a text, whatever stands behind it:
numbers at their full width, which a reader of digits and a reader that allows for blanks and for
fewer digits take alike, fractions of a second, and offsets. -/

namespace MongoShell

/-! Digits -/

theorem digitsValue_lt {digits : List Char} (all : ∀ c ∈ digits, c.isDigit = true) :
    digitsValue digits < 10 ^ digits.length := by
  induction digits using List.reverseRecOn with
  | nil => decide
  | append_singleton digits c ih =>
    have front := ih fun d member => all d (List.mem_append_left _ member)
    have last : c.toNat - '0'.toNat ≤ 9 :=
      Nat.sub_le_iff_le_add.mpr (Char.isDigit_iff_toNat.mp (all c (by simp))).2
    rw [digitsValue_append_singleton, List.length_append, List.length_singleton, Nat.pow_succ]
    omega

theorem length_paddedDigits {width n : Nat} (positive : 0 < width) (fits : n < 10 ^ width) :
    (paddedDigits width n).length = width := by
  have short := (Nat.length_toDigits_le_iff (by decide : 1 < 10) positive).mpr fits
  rw [paddedDigits, List.length_append, List.length_replicate]
  exact Nat.sub_add_cancel short

theorem isDigit_paddedDigits (width n : Nat) : ∀ c ∈ paddedDigits width n, c.isDigit = true := by
  intro c member
  rcases List.mem_append.mp member with zero | digit
  · rw [List.eq_of_mem_replicate zero]
    rfl
  · exact toDigits_all_isDigit n c digit

theorem digitsValue_paddedDigits (width n : Nat) : digitsValue (paddedDigits width n) = n := by
  rw [paddedDigits, digitsValue_append, digitsValue_replicate_zero, Nat.zero_mul, Nat.zero_add,
    digitsValue_toDigits]

theorem isWhiteSpace_of_isDigit {c : Char} (digit : c.isDigit = true) : isWhiteSpace c = false := by
  have range : 48 ≤ c.toNat ∧ c.toNat ≤ 57 := Char.isDigit_iff_toNat.mp digit
  simp only [isWhiteSpace, Bool.or_eq_false_iff, Bool.and_eq_false_iff, decide_eq_false_iff_not,
    beq_eq_false_iff_ne]
  omega

theorem head_padded {width n : Nat} (positive : 0 < width) (fits : n < 10 ^ width)
    (rest : List Char) : ∀ c ∈ (paddedDigits width n ++ rest).head?, c.isDigit = true := by
  have nonempty : paddedDigits width n ≠ [] := by
    apply List.ne_nil_of_length_pos
    rwa [length_paddedDigits positive fits]
  obtain ⟨c, text, written, digit⟩ := IsDigits.exists_cons ⟨nonempty, isDigit_paddedDigits width n⟩
  rw [written]
  rintro _ ⟨⟩
  exact digit

/-- The first three of some digits, zeros put in for missing ones, are the whole thousandths of the
fraction that the digits write. -/
theorem digitsValue_thousandths {digits : List Char} (all : IsDigits digits) :
    digitsValue ((digits ++ ['0', '0']).take 3) =
      digitsValue digits * 1000 / 10 ^ digits.length := by
  obtain ⟨nonempty, every⟩ := all
  match digits with
  | [] => exact absurd rfl nonempty
  | [a] =>
    change digitsValue ([a] ++ ['0', '0']) = digitsValue [a] * 1000 / 10
    rw [digitsValue_append]
    change digitsValue [a] * 100 + 0 = _
    omega
  | [a, b] =>
    change digitsValue ([a, b] ++ ['0']) = digitsValue [a, b] * 1000 / 100
    rw [digitsValue_append]
    change digitsValue [a, b] * 10 + 0 = _
    omega
  | a :: b :: c :: more =>
    have below : digitsValue more < 10 ^ more.length :=
      digitsValue_lt fun d member => every d (by simp [member])
    have parted : digitsValue (a :: b :: c :: more) =
        digitsValue [a, b, c] * 10 ^ more.length + digitsValue more :=
      digitsValue_append [a, b, c] more
    have scale : 10 ^ (a :: b :: c :: more).length = 10 ^ more.length * 1000 := by
      rw [List.length_cons, List.length_cons, List.length_cons, Nat.pow_succ, Nat.pow_succ,
        Nat.pow_succ, Nat.mul_assoc, Nat.mul_assoc]
    rw [parted, scale, Nat.mul_div_mul_right _ _ (by decide), Nat.mul_comm,
      Nat.mul_add_div (by omega), Nat.div_eq_of_lt below]
    rfl

namespace TextReader

variable {α β : Type}

theorem bind_apply (reader : TextReader α) (next : α → TextReader β) (text : List Char) :
    (reader >>= next) text = (reader text).bind fun read => next read.1 read.2 := rfl

/-- Once a reader has read, the next one goes on with the rest. -/
theorem bind_read {reader : TextReader α} {text rest : List Char} {a : α}
    (read : reader text = some (a, rest)) (next : α → TextReader β) :
    (reader >>= next) text = next a rest := by
  rw [bind_apply, read]
  rfl

theorem bind_fail {reader : TextReader α} {text : List Char} (failed : reader text = none)
    (next : α → TextReader β) : (reader >>= next) text = none := by
  rw [bind_apply, failed]
  rfl

theorem literal_self (c : Char) (text : List Char) : literal c (c :: text) = some ((), text) := by
  rw [literal, bind_apply, char, if_pos (beq_self_eq_true c)]
  rfl

theorem literal_other {c : Char} {text : List Char} (differ : ∀ d ∈ text.head?, d ≠ c) :
    literal c text = none := by
  cases text with
  | nil => rfl
  | cons d text =>
    rw [literal, bind_apply, char, if_neg (by simpa using differ d rfl)]
    rfl

/-! Numbers -/

variable {width n : Nat}

theorem digits_padded {least : Nat} (positive : 0 < width) (fits : n < 10 ^ width)
    (enough : least ≤ width) (rest : List Char) :
    digits least width (paddedDigits width n ++ rest) = some (n, rest) := by
  have size := length_paddedDigits positive fits
  have all : (paddedDigits width n).takeWhile Char.isDigit = paddedDigits width n :=
    List.takeWhile_eq_self_iff.mpr (isDigit_paddedDigits width n)
  rw [digits, List.take_left' size, all]
  simp only [size, if_pos enough, digitsValue_paddedDigits, List.drop_left' size]

theorem skipWhile_append {p : Char → Bool} {first rest : List Char}
    (passing : ∀ c ∈ first, p c = true) (stop : ∀ c ∈ rest.head?, p c = false) :
    skipWhile p (first ++ rest) = some ((), rest) := by
  rw [skipWhile, dropWhile_stop passing stop]

theorem skipWhile_nothing {p : Char → Bool} {text : List Char}
    (stop : ∀ c ∈ text.head?, p c = false) : skipWhile p text = some ((), text) :=
  skipWhile_append (List.forall_mem_nil _) stop

theorem skipWhile_padded (positive : 0 < width) (fits : n < 10 ^ width) (rest : List Char) :
    skipWhile isWhiteSpace (paddedDigits width n ++ rest) =
      some ((), paddedDigits width n ++ rest) :=
  skipWhile_nothing fun c first => isWhiteSpace_of_isDigit (head_padded positive fits rest c first)

theorem number_padded (positive : 0 < width) (fits : n < 10 ^ width) (rest : List Char) :
    number width (paddedDigits width n ++ rest) = some (n, rest) := by
  rw [number, bind_apply, skipWhile_padded positive fits]
  exact digits_padded positive fits positive rest

theorem digits_two (small : n < 100) (rest : List Char) :
    digits 2 2 (paddedDigits 2 n ++ rest) = some (n, rest) :=
  digits_padded (by decide) small (by decide) rest

theorem digits_two_last (small : n < 100) : digits 2 2 (paddedDigits 2 n) = some (n, []) := by
  have read := digits_two small []
  rwa [List.append_nil] at read

theorem number_two (small : n < 100) (rest : List Char) :
    number 2 (paddedDigits 2 n ++ rest) = some (n, rest) :=
  number_padded (by decide) small rest

theorem year_padded (fits : n < 10 ^ 4) (rest : List Char) :
    year (paddedDigits 4 n ++ rest) = some ((n : Int), rest) := by
  have digit := head_padded (by decide : 0 < 4) fits rest
  have read := digits_padded (by decide) fits (by decide : 1 ≤ 4) rest
  rw [year, bind_read (skipWhile_padded (by decide) fits rest)]
  -- a digit is neither of the signs that a year may have
  split
  · rename_i same
    rw [same] at digit
    cases digit '-' rfl
  · rename_i same
    rw [same] at digit
    cases digit '+' rfl
  · rw [read]
    rfl

/-! Fractions -/

theorem fraction_digits {found rest : List Char} (all : IsDigits found)
    (stop : ∀ c ∈ rest.head?, c.isDigit = false) :
    fraction ('.' :: (found ++ rest)) =
      some (digitsValue found * 1000 / 10 ^ found.length, rest) := by
  rw [fraction, takeWhile_stop all.2 stop, dropWhile_stop all.2 stop]
  simp only [if_neg all.1, digitsValue_thousandths all]

theorem fraction_none {rest : List Char} (noPoint : ∀ c ∈ rest.head?, c ≠ '.') :
    fraction rest = some (0, rest) := by
  unfold fraction
  split
  · exact absurd rfl (noPoint '.' rfl)
  · rfl

/-! Offsets -/

/-- The sign of an offset. -/
def signChar (negative : Bool) : Char := if negative then '-' else '+'

/-- The minutes of an offset of so many hours and minutes. -/
def offsetMinutes (negative : Bool) (hours minutes : Nat) : Int :=
  if negative then -((hours : Int) * 60 + minutes) else (hours : Int) * 60 + minutes

variable {separator : TextReader Unit} {negative : Bool} {hours minutes : Nat}

theorem offset_nil (separator : TextReader Unit) : offset separator [] = none := rfl

theorem zone_nil : zone [] = none := rfl

theorem offsetSign_signChar (text : List Char) :
    offsetSign (signChar negative :: text) = some (negative, text) := by
  cases negative <;> rfl

/-- Behind the hours of an offset it depends on what stands between them and the minutes. -/
theorem offset_hours (isHour : hours < 24) (rest : List Char) :
    offset separator (signChar negative :: (paddedDigits 2 hours ++ rest)) =
      (separator rest).bind fun parted => (digits 2 2 parted.2).bind fun read =>
        if read.1 ≤ 59 then some (offsetMinutes negative hours read.1, read.2) else none := by
  rw [offset, bind_read (offsetSign_signChar _), bind_read (digits_two (by omega) _), bind_apply]
  apply congrArg (separator rest).bind
  funext parted
  apply congrArg (digits 2 2 parted.2).bind
  funext ⟨minutes, behind⟩
  change (if minutes ≤ 59 ∧ hours ≤ 23 then pure (offsetMinutes negative hours minutes)
    else failure : TextReader Int) behind = _
  by_cases isMinute : minutes ≤ 59
  · rw [if_pos isMinute, if_pos ⟨isMinute, Nat.le_of_lt_succ isHour⟩]
    rfl
  · rw [if_neg isMinute, if_neg fun both => isMinute both.1]
    rfl

/-- Minutes at the end of an offset, behind what its separator takes. -/
theorem offset_text (isHour : hours < 24) (isMinute : minutes < 60) (between : List Char)
    (parted : separator (between ++ paddedDigits 2 minutes) = some ((), paddedDigits 2 minutes)) :
    offset separator
      (signChar negative :: (paddedDigits 2 hours ++ (between ++ paddedDigits 2 minutes))) =
        some (offsetMinutes negative hours minutes, []) := by
  rw [offset_hours isHour, parted, Option.bind_some, digits_two_last (by omega), Option.bind_some,
    if_pos (Nat.le_of_lt_succ isMinute)]

theorem zone_signChar (text : List Char) :
    zone (signChar negative :: text) = offset (literal ':') (signChar negative :: text) := by
  cases negative <;> rfl

theorem zone_colon (isHour : hours < 24) (isMinute : minutes < 60) :
    zone (signChar negative :: (paddedDigits 2 hours ++ ':' :: paddedDigits 2 minutes)) =
      some (offsetMinutes negative hours minutes, []) := by
  rw [zone_signChar]
  exact offset_text isHour isMinute [':'] (literal_self ':' _)

/-- Without a colon between hours and minutes there is no zone. -/
theorem zone_bare (isHour : hours < 24) (minutes : Nat) :
    zone (signChar negative :: (paddedDigits 2 hours ++ paddedDigits 2 minutes)) = none := by
  have noColon : ∀ c ∈ (paddedDigits 2 minutes).head?, c ≠ ':' := by
    rintro _ first rfl
    cases isDigit_paddedDigits 2 minutes ':' (List.mem_of_mem_head? first)
  rw [zone_signChar, offset_hours isHour, literal_other noColon]
  rfl

/-- A loose offset needs no colon. -/
theorem offset_bare (isHour : hours < 24) (isMinute : minutes < 60) :
    offset (skipWhile fun c => c == ':' || isWhiteSpace c)
      (signChar negative :: (paddedDigits 2 hours ++ paddedDigits 2 minutes)) =
        some (offsetMinutes negative hours minutes, []) := by
  refine offset_text isHour isMinute [] (skipWhile_nothing ?_)
  intro c first
  have digit := isDigit_paddedDigits 2 minutes c (List.mem_of_mem_head? first)
  have noColon : c ≠ ':' := by
    rintro rfl
    cases digit
  rw [isWhiteSpace_of_isDigit digit, Bool.or_false]
  exact beq_false_of_ne noColon

end TextReader

end MongoShell
