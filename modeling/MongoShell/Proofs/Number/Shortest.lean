import Mathlib.Data.List.TakeWhile
import MongoShell.Number.Shortest
import MongoShell.Proofs.Number.Rounding

/-! The decimal number that a double is written by reads back as the double. Either it was tried, or
it is the double's exact value, which has few enough digits to be read at all. -/

namespace MongoShell

namespace Double

theorem ofDecimal_of_readsBack {d : Double} {decimal : Decimal}
    (back : d.readsBack decimal = true) : ofDecimal d.negative decimal = d := by
  have magnitudes : (ofDecimal d.negative decimal).magnitude = d.magnitude := beq_iff_eq.mp back
  have signs := ofDecimal_negative d.negative decimal
  generalize ofDecimal d.negative decimal = read at magnitudes signs
  cases read
  cases d
  simp only at magnitudes signs
  rw [magnitudes, signs]

theorem nearestWithDigits?_readsBack {d : Double} {count : Nat} {decimal : Decimal}
    (found : d.nearestWithDigits? count = some decimal) : d.readsBack decimal = true := by
  unfold nearestWithDigits? at found
  simp only at found
  split at found
  · rename_i below above
    cases found
    split
    · exact below
    · exact above
  · rename_i below _
    cases found
    exact below
  · rename_i _ above
    cases found
    exact above
  · cases found

theorem scale_bounds {d : Double} (finite : d.isFinite = true) :
    -1074 ≤ d.scale ∧ d.scale ≤ 971 := by
  have below : d.magnitude.val < infiniteMagnitude := of_decide_eq_true finite
  have exponent : d.exponentField < 2047 := by
    unfold exponentField
    rw [Nat.div_lt_iff_lt_mul (by decide)]
    exact below
  unfold scale
  omega

theorem length_toDigits_le {n k : Nat} (positive : 0 < k) (bound : n < 10 ^ k) :
    (Nat.toDigits 10 n).length ≤ k :=
  (Nat.length_toDigits_le_iff (by decide) positive).mpr bound

/-- Ninety-three binary places are less than twenty-eight decimal ones. -/
theorem two_pow_le {k n rest : Nat} (most : k ≤ 93 * n + rest) :
    2 ^ k ≤ 10 ^ (28 * n) * 2 ^ rest := by
  have block : 2 ^ 93 ≤ 10 ^ 28 := by decide
  calc 2 ^ k ≤ 2 ^ (93 * n + rest) := Nat.pow_le_pow_right (by decide) most
    _ = (2 ^ 93) ^ n * 2 ^ rest := by rw [Nat.pow_add, Nat.pow_mul]
    _ ≤ (10 ^ 28) ^ n * 2 ^ rest := Nat.mul_le_mul_right _ (Nat.pow_le_pow_left block n)
    _ = 10 ^ (28 * n) * 2 ^ rest := by rw [Nat.pow_mul]

/-- The exact value of a double has its first digit where numbers are neither infinite nor zero. -/
theorem exactDecimal_top {d : Double} (finite : d.isFinite = true)
    (nonzero : d.magnitude.val ≠ 0) :
    -330 ≤ ((Nat.toDigits 10 d.exactDecimal.coefficient).length : Int) + d.exactDecimal.exponent ∧
      ((Nat.toDigits 10 d.exactDecimal.coefficient).length : Int) + d.exactDecimal.exponent ≤
        310 := by
  obtain ⟨least, most⟩ := scale_bounds finite
  have significand := d.significand_lt
  have positive := significand_pos nonzero
  -- The number of blocks stays a symbol, so that no great power is worked out.
  obtain ⟨n, eleven⟩ : ∃ n, n = 11 := ⟨11, rfl⟩
  simp only [exactDecimal, numerator, Nat.shiftLeft_eq, Nat.pow_eq]
  by_cases whole : 0 ≤ d.scale
  · have none : (-d.scale).toNat = 0 := by omega
    have bound : d.significand * 2 ^ d.scale.toNat < 10 ^ (28 * n + 1) := by
      calc d.significand * 2 ^ d.scale.toNat
          < 2 ^ 53 * 2 ^ d.scale.toNat := by gcongr; exact significand
        _ = 2 ^ (53 + d.scale.toNat) := (Nat.pow_add 2 53 _).symm
        _ ≤ 10 ^ (28 * n) * 2 ^ 1 := two_pow_le (by omega)
        _ < 10 ^ (28 * n) * 10 ^ 1 := by gcongr; decide
        _ = 10 ^ (28 * n + 1) := (Nat.pow_add 10 _ _).symm
    have length := length_toDigits_le (by omega) bound
    rw [none, pow_zero, Nat.mul_one]
    omega
  · have none : d.scale.toNat = 0 := by omega
    obtain ⟨k, below⟩ : ∃ k : Nat, d.scale = -(k : Int) := ⟨d.scale.natAbs, by omega⟩
    have power : (-d.scale).toNat = k := by omega
    rw [none, power, pow_zero, Nat.mul_one]
    have upper : d.significand * 5 ^ k < 10 ^ (16 + k) := by
      calc d.significand * 5 ^ k < 10 ^ 16 * 5 ^ k := by
            gcongr
            exact Nat.lt_trans significand (by decide)
        _ ≤ 10 ^ 16 * 10 ^ k := by gcongr; decide
        _ = 10 ^ (16 + k) := (Nat.pow_add 10 16 k).symm
    have long := length_toDigits_le (by omega) upper
    refine ⟨?_, by omega⟩
    -- Fewer digits would make the number, times the power of two, less than that power of ten.
    by_contra short
    have few : (Nat.toDigits 10 (d.significand * 5 ^ k)).length ≤ k - 330 := by omega
    have lower := (Nat.length_toDigits_le_iff (by decide) (by omega)).mp few
    have impossible : 10 ^ k < 10 ^ k := by
      calc 10 ^ k = 5 ^ k * 2 ^ k := by rw [← Nat.mul_pow]
        _ ≤ d.significand * 5 ^ k * 2 ^ k := by
          gcongr
          exact Nat.le_mul_of_pos_left _ positive
        _ < 10 ^ (k - 330) * (10 ^ (28 * n) * 10 ^ 22) := by
          have power : 2 ^ k ≤ 10 ^ (28 * n) * 2 ^ 51 := two_pow_le (by omega)
          have less : 10 ^ (28 * n) * 2 ^ 51 < 10 ^ (28 * n) * 10 ^ 22 := by gcongr; decide
          exact Nat.mul_lt_mul'' lower (Nat.lt_of_le_of_lt power less)
        _ = 10 ^ (k - 330 + (28 * n + 22)) := by rw [Nat.pow_add, Nat.pow_add]
        _ ≤ 10 ^ k := Nat.pow_le_pow_right (by decide) (by omega)
    exact Nat.lt_irrefl _ impossible

/-- A double is what its exact value reads as. -/
theorem ofDecimal_exactDecimal {d : Double} (finite : d.isFinite = true)
    (nonzero : d.magnitude.val ≠ 0) : ofDecimal d.negative d.exactDecimal = d := by
  obtain ⟨least, most⟩ := exactDecimal_top finite nonzero
  have numerator := numerator_pos nonzero
  have coefficient : d.exactDecimal.coefficient ≠ 0 := by
    simp only [exactDecimal, Nat.pow_eq]
    positivity
  have unscaled : d.exactDecimal.exponent.toNat = 0 := by
    simp only [exactDecimal]
    omega
  have scaled : (-d.exactDecimal.exponent).toNat = (-d.scale).toNat := by
    simp only [exactDecimal]
    omega
  have quotient : ofQuotient d.negative (d.exactDecimal.coefficient * Nat.pow 10 0)
      (Nat.pow 10 (-d.scale).toNat) = ofQuotient d.negative d.numerator d.denominator := by
    simp only [exactDecimal, Nat.pow_eq, denominator, Nat.shiftLeft_eq]
    refine ofQuotient_congr d.negative (by positivity) (by positivity) numerator (by positivity) ?_
    have ten : 10 ^ (-d.scale).toNat = 5 ^ (-d.scale).toNat * 2 ^ (-d.scale).toNat := by
      rw [← Nat.mul_pow]
    rw [ten]
    ring
  have low : ¬(((Nat.toDigits 10 d.exactDecimal.coefficient).length : Int) +
      d.exactDecimal.exponent < -330) := Int.not_lt.mpr least
  have high : ¬(310 < ((Nat.toDigits 10 d.exactDecimal.coefficient).length : Int) +
      d.exactDecimal.exponent) := Int.not_lt.mpr most
  calc ofDecimal d.negative d.exactDecimal
      = ofQuotient d.negative (d.exactDecimal.coefficient * Nat.pow 10 0)
          (Nat.pow 10 (-d.scale).toNat) := by
        simp only [ofDecimal, coefficient, low, high, or_self, if_false, unscaled, scaled]
    _ = ofQuotient d.negative d.numerator d.denominator := quotient
    _ = d := ofQuotient_self finite nonzero

/-- A finite double other than zero is what its shortest decimal number reads as. -/
theorem ofDecimal_shortestDecimal {d : Double} (finite : d.isFinite = true)
    (nonzero : d.magnitude.val ≠ 0) : ofDecimal d.negative d.shortestDecimal = d := by
  unfold shortestDecimal
  cases found : (List.range 17).findSome? fun count => d.nearestWithDigits? (count + 1) with
  | none => exact ofDecimal_exactDecimal finite nonzero
  | some decimal =>
    obtain ⟨count, _, nearest⟩ := List.exists_of_findSome?_eq_some found
    exact ofDecimal_of_readsBack (nearestWithDigits?_readsBack nearest)

theorem shortestDecimal_coefficient_pos {d : Double} (finite : d.isFinite = true)
    (nonzero : d.magnitude.val ≠ 0) : 0 < d.shortestDecimal.coefficient := by
  refine Nat.pos_of_ne_zero fun zero => nonzero ?_
  have read := ofDecimal_shortestDecimal finite nonzero
  generalize d.shortestDecimal = decimal at zero read
  cases decimal
  simp only at zero
  rw [zero, ofDecimal_zero] at read
  rw [← read]
  rfl

/-! The text -/

theorem toDigits_eq_leadingDigits (n : Nat) :
    ∃ k, Nat.toDigits 10 n = leadingDigits n ++ List.replicate k '0' := by
  let backwards := (Nat.toDigits 10 n).reverse
  have parts : backwards.takeWhile (· == '0') ++ backwards.dropWhile (· == '0') = backwards :=
    List.takeWhile_append_dropWhile
  have zeros : backwards.takeWhile (· == '0') =
      List.replicate (backwards.takeWhile (· == '0')).length '0' := by
    refine List.eq_replicate_of_mem fun c member => ?_
    have passing : (c == '0') = true := List.mem_takeWhile_imp (p := (· == '0')) member
    exact beq_iff_eq.mp passing
  refine ⟨(backwards.takeWhile (· == '0')).length, ?_⟩
  calc Nat.toDigits 10 n = backwards.reverse := (List.reverse_reverse _).symm
    _ = (backwards.dropWhile (· == '0')).reverse ++ (backwards.takeWhile (· == '0')).reverse := by
      rw [← List.reverse_append, parts]
    _ = leadingDigits n ++ List.replicate (backwards.takeWhile (· == '0')).length '0' := by
      rw [zeros, List.reverse_replicate, List.length_replicate]
      rfl

theorem leadingDigits_spec {n : Nat} (positive : 0 < n) :
    IsDigits (leadingDigits n) ∧ ∃ k, n = digitsValue (leadingDigits n) * 10 ^ k ∧
      (Nat.toDigits 10 n).length = (leadingDigits n).length + k := by
  obtain ⟨k, split⟩ := toDigits_eq_leadingDigits n
  have value : n = digitsValue (leadingDigits n) * 10 ^ k := by
    have whole := digitsValue_toDigits n
    rw [split, digitsValue_append, digitsValue_replicate_zero, List.length_replicate] at whole
    exact whole.symm
  refine ⟨⟨fun empty => ?_, fun c member => ?_⟩, k, value, ?_⟩
  · rw [empty] at value
    have zero : n = 0 := by simpa [digitsValue] using value
    omega
  · refine toDigits_all_isDigit n c ?_
    rw [split]
    exact List.mem_append_left _ member
  · rw [split, List.length_append, List.length_replicate]

/-- Digits behind which a number of zeros is left out. -/
def Writes (n : Numeral) (digits : List Char) (exponent : Int) : Prop :=
  ∃ zeros : Nat, n.decimal = ⟨digitsValue digits * 10 ^ zeros, exponent - zeros⟩

theorem placePoint_numeral {digits : List Char} (all : IsDigits digits) (count : Nat) :
    ∃ n : Numeral, n.text = placePoint digits count ∧ n.Fractional ∧
      Writes n digits (count + 1 - digits.length) := by
  by_cases whole : digits.length ≤ count + 1
  · have front : digits.take (count + 1) = digits := List.take_of_length_le whole
    have behind : digits.drop (count + 1) = [] := List.drop_of_length_le whole
    refine ⟨⟨digits ++ List.replicate (count + 1 - digits.length) '0', ['0'], none, ?_, ?_, ?_⟩,
      ?_, .inl (by simp), count + 1 - digits.length + 1, ?_⟩
    · refine ⟨by simp [all.1], fun c member => ?_⟩
      rcases List.mem_append.mp member with early | zero
      · exact all.2 c early
      · rw [List.eq_of_mem_replicate zero]
        rfl
    · exact List.all_eq_true.mp rfl
    · exact Numeral.noPower
    · simp [placePoint, front, behind, Numeral.text, Numeral.pointText, Numeral.powerText]
    · have zeros : List.replicate (count + 1 - digits.length) '0' ++ ['0'] =
          List.replicate (count + 1 - digits.length + 1) '0' := List.replicate_succ'.symm
      simp only [Numeral.decimal, Numeral.powerValue, List.append_assoc, zeros, digitsValue_append,
        digitsValue_replicate_zero, List.length_replicate, Nat.add_zero, List.length_singleton,
        Decimal.mk.injEq, true_and]
      omega
  · have front : (digits.take (count + 1)).length = count + 1 := by
      rw [List.length_take]
      omega
    have behind : digits.drop (count + 1) ≠ [] := by
      intro empty
      exact whole (List.drop_eq_nil_iff.mp empty)
    refine ⟨⟨digits.take (count + 1), digits.drop (count + 1), none, ?_, ?_, ?_⟩, ?_, .inl behind,
      0, ?_⟩
    · refine ⟨fun empty => ?_, fun c member => all.2 c (List.mem_of_mem_take member)⟩
      rw [empty] at front
      cases front
    · exact fun c member => all.2 c (List.mem_of_mem_drop member)
    · exact Numeral.noPower
    · simp [placePoint, front, behind, Numeral.text, Numeral.pointText, Numeral.powerText]
    · simp only [Numeral.decimal, Numeral.powerValue, List.take_append_drop, List.length_drop,
        Nat.pow_zero, Nat.mul_one, Decimal.mk.injEq, true_and]
      omega

theorem leadingPoint_numeral {digits : List Char} (all : IsDigits digits) (zeros : Nat) :
    ∃ n : Numeral, n.text = ['0', '.'] ++ List.replicate zeros '0' ++ digits ∧ n.Fractional ∧
      Writes n digits (-(zeros : Int) - digits.length) := by
  have behind : List.replicate zeros '0' ++ digits ≠ [] := by simp [all.1]
  have zero : IsDigits ['0'] := ⟨by simp, List.all_eq_true.mp rfl⟩
  refine ⟨⟨['0'], List.replicate zeros '0' ++ digits, none, zero, ?_, Numeral.noPower⟩, ?_,
    .inl behind, 0, ?_⟩
  · intro c member
    rcases List.mem_append.mp member with zero | late
    · rw [List.eq_of_mem_replicate zero]
      rfl
    · exact all.2 c late
  · simp [Numeral.text, Numeral.pointText, Numeral.powerText, all.1]
  · have value :
        digitsValue ('0' :: (List.replicate zeros '0' ++ digits)) = digitsValue digits := by
      rw [← List.cons_append, ← List.replicate_succ, digitsValue_append,
        digitsValue_replicate_zero, Nat.zero_mul, Nat.zero_add]
    simp only [Numeral.decimal, Numeral.powerValue, List.singleton_append, value, Nat.pow_zero,
      Nat.mul_one, List.length_append, List.length_replicate, Decimal.mk.injEq, true_and]
    omega

theorem scientific_numeral {digits : List Char} (all : IsDigits digits) (exponent : Int) :
    ∃ n : Numeral,
      n.text = digits.take 1 ++ (if digits.drop 1 = [] then [] else '.' :: digits.drop 1)
        ++ (if exponent < 0 then ['e', '-'] else ['e', '+']) ++ Nat.toDigits 10 exponent.natAbs ∧
      n.Fractional ∧ Writes n digits (exponent + 1 - digits.length) := by
  refine ⟨⟨digits.take 1, digits.drop 1,
    some (decide (exponent < 0), Nat.toDigits 10 exponent.natAbs), ?_, ?_, ?_⟩, ?_, .inr rfl, 0, ?_⟩
  · refine ⟨fun empty => ?_, fun c member => all.2 c (List.mem_of_mem_take member)⟩
    obtain ⟨c, rest, rfl, _⟩ := all.exists_cons
    cases empty
  · exact fun c member => all.2 c (List.mem_of_mem_drop member)
  · intro p member
    cases member
    exact isDigits_toDigits _
  · by_cases negative : exponent < 0 <;>
      simp [Numeral.text, Numeral.pointText, Numeral.powerText, negative]
  · have power :
        (if exponent < 0 then -(exponent.natAbs : Int) else exponent.natAbs) = exponent := by
      split <;> omega
    have positive : 0 < digits.length := List.length_pos_iff.mpr all.1
    simp only [Numeral.decimal, Numeral.powerValue, digitsValue_toDigits, decide_eq_true_eq, power,
      List.take_append_drop, List.length_drop, Nat.pow_zero, Nat.mul_one, Decimal.mk.injEq,
      true_and]
    omega

/-- A layout of digits is a numeral, one that is not that of a whole number. -/
theorem layOut_numeral {digits : List Char} (all : IsDigits digits) (exponent : Int) :
    ∃ n : Numeral, n.text = layOut digits exponent ∧ n.Fractional ∧
      Writes n digits (exponent + 1 - digits.length) := by
  unfold layOut
  by_cases plain : -5 ≤ exponent ∧ exponent ≤ 15
  · rw [if_pos plain]
    by_cases whole : 0 ≤ exponent
    · rw [if_pos whole]
      have count : (exponent.toNat : Int) = exponent := Int.toNat_of_nonneg whole
      have placed := placePoint_numeral all exponent.toNat
      rw [count] at placed
      exact placed
    · rw [if_neg whole]
      have count : -((-exponent - 1).toNat : Int) - digits.length =
          exponent + 1 - digits.length := by omega
      have placed := leadingPoint_numeral all (-exponent - 1).toNat
      rw [count] at placed
      exact placed
  · rw [if_neg plain]
    exact scientific_numeral all exponent

/-- The text of a finite double is a numeral with a sign, not that of a whole number, and what it
reads as is the double. -/
theorem text_numeral {d : Double} (finite : d.isFinite = true) :
    ∃ n : Numeral, d.text.toList = n.signedText d.negative ∧ n.Fractional ∧
      ofDecimal d.negative n.decimal = d := by
  by_cases zero : d.magnitude.val = 0
  · have same : (⟨d.negative, 0⟩ : Double) = d := by
      cases d
      simp only [Double.mk.injEq, true_and]
      exact Fin.ext zero.symm
    have digit : ∀ c ∈ ['0'], c.isDigit = true := List.all_eq_true.mp rfl
    refine ⟨⟨['0'], ['0'], none, ⟨by simp, digit⟩, digit, Numeral.noPower⟩, ?_, .inl (by simp), ?_⟩
    · have isZero : d.isZero = true := beq_iff_eq.mpr zero
      simp only [text, isZero, if_true, String.toList_ofList]
      rfl
    · exact (ofDecimal_zero d.negative _).trans same
  · have isZero : d.isZero = false := by simpa [Double.isZero] using zero
    have positive := shortestDecimal_coefficient_pos finite zero
    obtain ⟨all, k, value, length⟩ := leadingDigits_spec positive
    obtain ⟨n, shown, fractional, zeros, decimal⟩ := layOut_numeral all
      ((Nat.toDigits 10 d.shortestDecimal.coefficient).length + d.shortestDecimal.exponent - 1)
    refine ⟨n, ?_, fractional, ?_⟩
    · simp only [text, isZero, Bool.false_eq_true, if_false, String.toList_ofList, ← shown]
      rfl
    · have exponent : ((Nat.toDigits 10 d.shortestDecimal.coefficient).length : Int) +
          d.shortestDecimal.exponent - 1 + 1 -
            (leadingDigits d.shortestDecimal.coefficient).length =
          d.shortestDecimal.exponent + k := by omega
      have unscaled : d.shortestDecimal.exponent + k - k = d.shortestDecimal.exponent := by omega
      rw [decimal, exponent, ofDecimal_mul_pow, ← ofDecimal_mul_pow d.negative _ k, unscaled,
        ← value]
      exact ofDecimal_shortestDecimal finite zero

theorem toLower_of_isDigit {c : Char} (digit : c.isDigit = true) : c.toLower = c := by
  unfold Char.toLower
  rw [dif_neg]
  rintro ⟨letter, -⟩
  simp only [Char.isDigit, Bool.and_eq_true, decide_eq_true_eq] at digit
  exact absurd (UInt32.le_trans letter digit.2) (by decide)

/-- A numeral with a sign is no word, and reads as the double nearest to it. -/
theorem ofText?_numeral (negative : Bool) (n : Numeral) :
    ofText? (n.signedText negative) = some (ofDecimal negative n.decimal) := by
  obtain ⟨c, rest, shown, digit⟩ := n.text_exists_cons
  have word (d : Char) (letters : List Char) (letter : d.isDigit = false) :
      n.text.map Char.toLower ≠ d :: letters := by
    rw [shown, List.map_cons, toLower_of_isDigit digit]
    intro same
    cases same
    rw [digit] at letter
    cases letter
  have infinite : ¬(n.text.map Char.toLower = "inf".toList ∨
      n.text.map Char.toLower = "infinity".toList) :=
    not_or.mpr ⟨word 'i' ['n', 'f'] rfl, word 'i' ['n', 'f', 'i', 'n', 'i', 't', 'y'] rfl⟩
  have undefined : n.text.map Char.toLower ≠ "nan".toList := word 'n' ['a', 'n'] rfl
  rw [ofText?, Numeral.splitSign_signedText]
  simp only [infinite, undefined, if_false, n.ofText?_text, Option.map_some]

/-- The text of a finite double reads as the double, to the last bit. -/
theorem ofText?_text {d : Double} (finite : d.isFinite = true) :
    ofText? d.text.toList = some d := by
  obtain ⟨n, shown, -, decimal⟩ := text_numeral finite
  rw [shown, ofText?_numeral, decimal]

end Double

end MongoShell
