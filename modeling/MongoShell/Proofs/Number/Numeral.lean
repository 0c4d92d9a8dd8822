import Mathlib.Data.List.Induction
import Mathlib.Tactic.Common
import Mathlib.Tactic.Ring
import MongoShell.Number.Numeral

/-! Numerals put together from their parts, and what they read as: a decimal numeral reads as its
digits scaled by a power of ten, one of a whole number as that number. -/

namespace MongoShell

/-! Digits -/

theorem digitsValue_append (first second : List Char) :
    digitsValue (first ++ second) =
      digitsValue first * 10 ^ second.length + digitsValue second := by
  induction second using List.reverseRecOn with
  | nil => simp [digitsValue]
  | append_singleton second c ih =>
    rw [← List.append_assoc, digitsValue_append_singleton, ih, digitsValue_append_singleton,
      List.length_append, List.length_singleton, Nat.pow_succ]
    ring

theorem digitsValue_replicate_zero (k : Nat) : digitsValue (List.replicate k '0') = 0 := by
  induction k with
  | zero => rfl
  | succ k ih =>
    rw [List.replicate_succ', digitsValue_append_singleton, ih]
    rfl

/-- The digits of a number write it. -/
theorem digitsValue_toDigits (n : Nat) : digitsValue (Nat.toDigits 10 n) = n := by
  induction n using Nat.strongRecOn with
  | ind n ih =>
    by_cases small : n < 10
    · rw [Nat.toDigits_of_lt_base small]
      change 0 * 10 + (n.digitChar.toNat - 48) = n
      rw [Nat.toNat_digitChar_sub_48_of_lt_ten small]
      omega
    · have lower : n / 10 < n := by omega
      have last := Nat.toNat_digitChar_sub_48_of_lt_ten (Nat.mod_lt n (by decide : 0 < 10))
      rw [Nat.toDigits_of_base_le (by decide) (Nat.not_lt.mp small), digitsValue_append_singleton,
        ih (n / 10) lower]
      change n / 10 * 10 + ((n % 10).digitChar.toNat - 48) = n
      rw [last]
      omega

theorem toDigits_all_isDigit (n : Nat) : ∀ c ∈ Nat.toDigits 10 n, c.isDigit = true :=
  fun _ member => Nat.isDigit_of_mem_toDigits (by decide) (by decide) member

/-- A factor of a power of ten shows as zeros at the end. -/
theorem toDigits_mul_pow {n : Nat} (positive : 0 < n) (k : Nat) :
    Nat.toDigits 10 (n * 10 ^ k) = Nat.toDigits 10 n ++ List.replicate k '0' := by
  induction k with
  | zero => simp
  | succ k ih =>
    have scaled : 0 < n * 10 ^ k := Nat.mul_pos positive (Nat.pow_pos (by decide))
    have shift : n * 10 ^ (k + 1) = 10 * (n * 10 ^ k) + 0 := by ring
    rw [shift, ← Nat.toDigits_append_toDigits (by decide) scaled (by decide), ih,
      List.replicate_succ', List.append_assoc]
    rfl

/-! Whole numbers -/

/-- A text that is digits only, and not empty. -/
def IsDigits (text : List Char) : Prop := text ≠ [] ∧ ∀ c ∈ text, c.isDigit = true

theorem isDigits_toDigits (n : Nat) : IsDigits (Nat.toDigits 10 n) :=
  ⟨Nat.toDigits_ne_nil, toDigits_all_isDigit n⟩

theorem IsDigits.exists_cons {digits : List Char} (all : IsDigits digits) :
    ∃ c rest, digits = c :: rest ∧ c.isDigit = true := by
  obtain ⟨nonempty, every⟩ := all
  cases digits with
  | nil => exact absurd rfl nonempty
  | cons c rest => exact ⟨c, rest, rfl, every c (List.mem_cons_self ..)⟩

theorem natural?_of_isDigits {digits : List Char} (all : IsDigits digits) :
    natural? digits = some (digitsValue digits) := by
  have every : digits.all Char.isDigit = true := List.all_eq_true.mpr all.2
  rw [natural?, if_pos ⟨all.1, every⟩]

theorem splitSign_of_isDigit {c : Char} (digit : c.isDigit = true) (text : List Char) :
    splitSign (c :: text) = (false, c :: text) := by
  unfold splitSign
  split
  · rename_i same
    cases same
    cases digit
  · rename_i same
    cases same
    cases digit
  · rfl

theorem integer?_minus {digits : List Char} (all : IsDigits digits) :
    integer? ('-' :: digits) = some (-(digitsValue digits : Int)) := by
  simp only [integer?, splitSign, natural?_of_isDigits all]
  rfl

theorem integer?_plus {digits : List Char} (all : IsDigits digits) :
    integer? ('+' :: digits) = some (digitsValue digits : Int) := by
  simp only [integer?, splitSign, natural?_of_isDigits all]
  rfl

/-! Decimal numerals -/

theorem takeWhile_stop {p : Char → Bool} {first rest : List Char}
    (passing : ∀ c ∈ first, p c = true) (stop : ∀ c ∈ rest.head?, p c = false) :
    (first ++ rest).takeWhile p = first := by
  rw [List.takeWhile_append_of_pos passing]
  cases rest with
  | nil => simp
  | cons c rest =>
    have failing : p c = false := stop c rfl
    simp [failing]

theorem dropWhile_stop {p : Char → Bool} {first rest : List Char}
    (passing : ∀ c ∈ first, p c = true) (stop : ∀ c ∈ rest.head?, p c = false) :
    (first ++ rest).dropWhile p = rest := by
  rw [List.dropWhile_append_of_pos passing]
  cases rest with
  | nil => rfl
  | cons c rest =>
    have failing : p c = false := stop c rfl
    simp [failing]

/-- A decimal numeral in its parts: digits, digits behind a point if there are any, and a power of
ten with its sign. -/
structure Numeral where
  whole : List Char
  fraction : List Char
  /-- Whether the power is negative, and its digits. -/
  power : Option (Bool × List Char)
  wholeDigits : IsDigits whole
  fractionDigits : ∀ c ∈ fraction, c.isDigit = true
  powerDigits : ∀ p ∈ power, IsDigits p.2

namespace Numeral

theorem noPower : ∀ p ∈ (none : Option (Bool × List Char)), IsDigits p.2 := by
  intro p member
  cases member

def pointText (n : Numeral) : List Char := if n.fraction = [] then [] else '.' :: n.fraction

def powerText (n : Numeral) : List Char :=
  match n.power with
  | none => []
  | some (negative, digits) => 'e' :: (if negative then '-' else '+') :: digits

def text (n : Numeral) : List Char := n.whole ++ (n.pointText ++ n.powerText)

def powerValue (n : Numeral) : Int :=
  match n.power with
  | none => 0
  | some (negative, digits) => if negative then -(digitsValue digits : Int) else digitsValue digits

/-- The number that a numeral writes. -/
def decimal (n : Numeral) : Decimal :=
  ⟨digitsValue (n.whole ++ n.fraction), n.powerValue - n.fraction.length⟩

/-- Whether a numeral has a point or a power, which that of a whole number has not. -/
def Fractional (n : Numeral) : Prop := n.fraction ≠ [] ∨ n.power.isSome = true

theorem head_powerText (n : Numeral) : ∀ c ∈ n.powerText.head?, c = 'e' := by
  unfold powerText
  cases n.power with
  | none => intro c member; cases member
  | some p => intro c member; cases member; rfl

theorem powerOfTen?_powerText (n : Numeral) : powerOfTen? n.powerText = some n.powerValue := by
  unfold powerText powerValue
  cases found : n.power with
  | none => rfl
  | some p =>
    obtain ⟨negative, digits⟩ := p
    have all : IsDigits digits := n.powerDigits (negative, digits) found
    cases negative with
    | true => exact integer?_minus all
    | false => exact integer?_plus all

theorem fractionDigits_tail (n : Numeral) :
    MongoShell.fractionDigits (n.pointText ++ n.powerText) = (n.fraction, n.powerText) := by
  have stop : ∀ c ∈ n.powerText.head?, Char.isDigit c = false := by
    intro c member
    rw [n.head_powerText c member]
    rfl
  by_cases whole : n.fraction = []
  · rw [pointText, if_pos whole, List.nil_append, whole, MongoShell.fractionDigits.eq_def]
    split
    · rename_i rest same
      have point := n.head_powerText '.' (by rw [same]; rfl)
      cases point
    · rfl
  · rw [pointText, if_neg whole, List.cons_append, MongoShell.fractionDigits,
      takeWhile_stop n.fractionDigits stop, dropWhile_stop n.fractionDigits stop]

theorem head_tail (n : Numeral) : ∀ c ∈ (n.pointText ++ n.powerText).head?, c = '.' ∨ c = 'e' := by
  intro c member
  by_cases whole : n.fraction = []
  · rw [pointText, if_pos whole, List.nil_append] at member
    exact .inr (n.head_powerText c member)
  · rw [pointText, if_neg whole] at member
    cases member
    exact .inl rfl

theorem tail_stops_digits (n : Numeral) :
    ∀ c ∈ (n.pointText ++ n.powerText).head?, Char.isDigit c = false := by
  intro c member
  rcases n.head_tail c member with rfl | rfl <;> rfl

/-- A numeral reads as the number that it writes. -/
theorem ofText?_text (n : Numeral) : Decimal.ofText? n.text = some n.decimal := by
  have nonempty : n.whole ++ n.fraction ≠ [] := by
    intro empty
    exact n.wholeDigits.1 (List.append_eq_nil_iff.mp empty).1
  rw [Decimal.ofText?, text, takeWhile_stop n.wholeDigits.2 n.tail_stops_digits,
    dropWhile_stop n.wholeDigits.2 n.tail_stops_digits, fractionDigits_tail]
  simp only [if_neg nonempty, powerOfTen?_powerText, Option.map_some, decimal]

theorem text_exists_cons (n : Numeral) : ∃ c rest, n.text = c :: rest ∧ c.isDigit = true := by
  obtain ⟨c, rest, whole, digit⟩ := n.wholeDigits.exists_cons
  refine ⟨c, rest ++ (n.pointText ++ n.powerText), ?_, digit⟩
  rw [text, whole, List.cons_append]

/-- A numeral with a minus sign in front, or with none. -/
def signedText (negative : Bool) (n : Numeral) : List Char :=
  if negative then '-' :: n.text else n.text

theorem splitSign_signedText (negative : Bool) (n : Numeral) :
    splitSign (n.signedText negative) = (negative, n.text) := by
  obtain ⟨c, rest, text, digit⟩ := n.text_exists_cons
  cases negative with
  | true => rfl
  | false =>
    change splitSign n.text = (false, n.text)
    rw [text]
    exact splitSign_of_isDigit digit rest

/-- The numeral of a whole number. -/
def ofNat (n : Nat) : Numeral where
  whole := Nat.toDigits 10 n
  fraction := []
  power := none
  wholeDigits := isDigits_toDigits n
  fractionDigits := by simp
  powerDigits := noPower

theorem text_ofNat (n : Nat) : (ofNat n).text = Nat.toDigits 10 n := by
  simp [text, pointText, powerText, ofNat]

theorem toList_toString_int (n : Int) :
    (toString n).toList = (ofNat n.natAbs).signedText (n < 0) := by
  rw [Int.toString_eq_repr, Int.repr_eq_if, signedText, text_ofNat]
  by_cases negative : n < 0
  · have absolute : (-n).toNat = n.natAbs := by omega
    rw [if_neg (Int.not_le.mpr negative), if_pos (decide_eq_true negative), String.toList_append,
      Nat.toList_repr, absolute]
    rfl
  · have absolute : n.toNat = n.natAbs := by omega
    rw [if_pos (Int.not_lt.mp negative), if_neg (by simp [negative]), Nat.toList_repr, absolute]

/-- A whole number that is written reads as itself. -/
theorem integer?_toString (n : Int) : integer? (toString n).toList = some n := by
  rw [toList_toString_int, integer?, splitSign_signedText]
  simp only [text_ofNat, natural?_of_isDigits (isDigits_toDigits _), digitsValue_toDigits]
  by_cases negative : n < 0
  · have value : -(n.natAbs : Int) = n := by omega
    simp only [negative, decide_true]
    exact congrArg some value
  · have value : (n.natAbs : Int) = n := by omega
    simp only [negative, decide_false]
    exact congrArg some value

end Numeral

end MongoShell
