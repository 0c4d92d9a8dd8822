import Mathlib.Algebra.Order.Field.Power
import Mathlib.Data.Int.Log
import Mathlib.Data.Rat.Floor
import Mathlib.Tactic.FieldSimp
import Mathlib.Tactic.Linarith
import Mathlib.Tactic.Positivity
import Mathlib.Tactic.Ring
import MongoShell.Number.Double
import MongoShell.Proofs.Number.Numeral

/-! Rounding looks at the quotient alone, not at how it is written. So a decimal number may be
written with zeros at its end and still give the same double, and a double that is written out in
full gives itself. -/

namespace MongoShell

namespace Double

/-! Quotients -/

theorem roundQuotient_mul (numerator denominator : Nat) {k : Nat} (positive : 0 < k) :
    roundQuotient (numerator * k) (denominator * k) = roundQuotient numerator denominator := by
  unfold roundQuotient
  have twice : 2 * (numerator % denominator * k) = 2 * (numerator % denominator) * k := by
    rw [Nat.mul_assoc]
  have below : 2 * (numerator % denominator) * k < denominator * k ↔
      2 * (numerator % denominator) < denominator := Nat.mul_lt_mul_right positive
  have halfway : 2 * (numerator % denominator) * k = denominator * k ↔
      2 * (numerator % denominator) = denominator := Nat.mul_left_inj (Nat.ne_of_gt positive)
  simp only [Nat.mul_div_mul_right _ _ positive, Nat.mul_mod_mul_right, twice, below, halfway]

theorem roundQuotient_one (n : Nat) : roundQuotient n 1 = n := by
  have whole : n % 1 = 0 := Nat.mod_one n
  simp [roundQuotient, whole]

/-- Equal quotients round to the same number. -/
theorem roundQuotient_congr {n d m e : Nat} (dPositive : 0 < d) (ePositive : 0 < e)
    (same : n * e = m * d) : roundQuotient n d = roundQuotient m e := by
  calc roundQuotient n d = roundQuotient (n * e) (d * e) := (roundQuotient_mul n d ePositive).symm
    _ = roundQuotient (m * d) (e * d) := by rw [same, Nat.mul_comm d e]
    _ = roundQuotient m e := roundQuotient_mul m e dPositive

/-! Exponents -/

theorem reachesPower_iff (n : Nat) {d : Nat} (positive : 0 < d) (exponent : Int) :
    reachesPower n d exponent = true ↔ (2 : ℚ) ^ exponent ≤ n / d := by
  have dPositive : (0 : ℚ) < d := by exact_mod_cast positive
  unfold reachesPower
  rw [decide_eq_true_iff, Nat.shiftLeft_eq, Nat.shiftLeft_eq, le_div_iff₀ dPositive]
  obtain ⟨k, rfl | rfl⟩ := exponent.eq_nat_or_neg
  · have none : (-(k : Int)).toNat = 0 := by omega
    rw [Int.toNat_natCast, none, zpow_natCast, pow_zero, Nat.mul_one, ← Nat.cast_le (α := ℚ)]
    push_cast
    rw [mul_comm]
  · have none : (-(k : Int)).toNat = 0 := by omega
    have power : (0 : ℚ) < 2 ^ k := by positivity
    rw [none, neg_neg, Int.toNat_natCast, zpow_neg, zpow_natCast, pow_zero, Nat.mul_one,
      ← Nat.cast_le (α := ℚ), inv_mul_le_iff₀ power]
    push_cast
    rw [mul_comm]

theorem quotient_pos {n d : Nat} (nPositive : 0 < n) (dPositive : 0 < d) : (0 : ℚ) < n / d := by
  positivity

/-- The exponent that is found is the logarithm of the quotient, rounded down. -/
theorem binaryExponent_eq_log {n d : Nat} (nPositive : 0 < n) (dPositive : 0 < d) :
    binaryExponent n d = Int.log 2 ((n : ℚ) / d) := by
  have quotient := quotient_pos nPositive dPositive
  have reaches (e : Int) : reachesPower n d e = true ↔ e ≤ Int.log 2 ((n : ℚ) / d) := by
    rw [reachesPower_iff n dPositive e]
    exact Int.zpow_le_iff_le_log (by norm_num) quotient
  -- The logarithms of both numbers are known to within one, hence that of the quotient to within
  -- two.
  have nAbove : (n : ℚ) < 2 ^ (n.log2 + 1) := by exact_mod_cast Nat.lt_log2_self
  have nBelow : (2 : ℚ) ^ n.log2 ≤ n := by exact_mod_cast Nat.log2_self_le (Nat.ne_of_gt nPositive)
  have dAbove : (d : ℚ) < 2 ^ (d.log2 + 1) := by exact_mod_cast Nat.lt_log2_self
  have dBelow : (2 : ℚ) ^ d.log2 ≤ d := by exact_mod_cast Nat.log2_self_le (Nat.ne_of_gt dPositive)
  have dReal : (0 : ℚ) < d := by exact_mod_cast dPositive
  have low : (n.log2 : Int) - d.log2 - 1 ≤ Int.log 2 ((n : ℚ) / d) := by
    rw [← Int.zpow_le_iff_le_log (by norm_num) quotient, le_div_iff₀ dReal]
    have split : (2 : ℚ) ^ ((n.log2 : Int) - d.log2 - 1) * 2 ^ (d.log2 + 1) = 2 ^ n.log2 := by
      rw [← zpow_natCast, ← zpow_natCast, ← zpow_add₀ (by norm_num)]
      congr 1
      push_cast
      ring
    push_cast
    calc (2 : ℚ) ^ ((n.log2 : Int) - d.log2 - 1) * d
        ≤ 2 ^ ((n.log2 : Int) - d.log2 - 1) * 2 ^ (d.log2 + 1) := by gcongr
      _ = 2 ^ n.log2 := split
      _ ≤ n := nBelow
  have high : Int.log 2 ((n : ℚ) / d) < (n.log2 : Int) - d.log2 + 1 := by
    rw [← Int.lt_zpow_iff_log_lt (by norm_num) quotient, div_lt_iff₀ dReal]
    have split : (2 : ℚ) ^ ((n.log2 : Int) - d.log2 + 1) * 2 ^ d.log2 = 2 ^ (n.log2 + 1) := by
      rw [← zpow_natCast, ← zpow_natCast, ← zpow_add₀ (by norm_num)]
      congr 1
      push_cast
      ring
    push_cast
    calc (n : ℚ) < 2 ^ (n.log2 + 1) := nAbove
      _ = 2 ^ ((n.log2 : Int) - d.log2 + 1) * 2 ^ d.log2 := split.symm
      _ ≤ 2 ^ ((n.log2 : Int) - d.log2 + 1) * d := by gcongr
  unfold binaryExponent
  by_cases guessed : reachesPower n d ((n.log2 : Int) - d.log2) = true
  · simp only [guessed, if_true]
    have bound := (reaches _).mp guessed
    omega
  · have bound := mt (reaches _).mpr guessed
    simp only [guessed]
    simp only [Bool.false_eq_true, if_false]
    omega

theorem binaryExponent_congr {n d m e : Nat} (nPositive : 0 < n) (dPositive : 0 < d)
    (mPositive : 0 < m) (ePositive : 0 < e) (same : n * e = m * d) :
    binaryExponent n d = binaryExponent m e := by
  have dReal : (d : ℚ) ≠ 0 := by exact_mod_cast Nat.ne_of_gt dPositive
  have eReal : (e : ℚ) ≠ 0 := by exact_mod_cast Nat.ne_of_gt ePositive
  have quotients : (n : ℚ) / d = m / e := by
    rw [div_eq_div_iff dReal eReal]
    exact_mod_cast same
  rw [binaryExponent_eq_log nPositive dPositive, binaryExponent_eq_log mPositive ePositive,
    quotients]

/-- Equal quotients give the same double. -/
theorem ofQuotient_congr (negative : Bool) {n d m e : Nat} (nPositive : 0 < n) (dPositive : 0 < d)
    (mPositive : 0 < m) (ePositive : 0 < e) (same : n * e = m * d) :
    ofQuotient negative n d = ofQuotient negative m e := by
  have exponents := binaryExponent_congr nPositive dPositive mPositive ePositive same
  have significands (a b : Nat) :
      roundQuotient (n <<< a) (d <<< b) = roundQuotient (m <<< a) (e <<< b) := by
    rw [Nat.shiftLeft_eq, Nat.shiftLeft_eq, Nat.shiftLeft_eq, Nat.shiftLeft_eq]
    refine roundQuotient_congr (by positivity) (by positivity) ?_
    calc n * 2 ^ a * (e * 2 ^ b) = n * e * (2 ^ a * 2 ^ b) := by ring
      _ = m * d * (2 ^ a * 2 ^ b) := by rw [same]
      _ = m * 2 ^ a * (d * 2 ^ b) := by ring
  simp only [ofQuotient, exponents, significands]

/-! Decimal numbers -/

theorem ofDecimal_zero (negative : Bool) (exponent : Int) :
    ofDecimal negative ⟨0, exponent⟩ = ⟨negative, 0⟩ := by
  simp [ofDecimal]

theorem ofDecimal_negative (negative : Bool) (decimal : Decimal) :
    (ofDecimal negative decimal).negative = negative := by
  unfold ofDecimal ofQuotient infinity
  simp only
  split
  · rfl
  · split
    · rfl
    · split <;> rfl

/-- A decimal number keeps its double when it is written with zeros at its end. -/
theorem ofDecimal_mul_pow (negative : Bool) (coefficient k : Nat) (exponent : Int) :
    ofDecimal negative ⟨coefficient * 10 ^ k, exponent - k⟩ =
      ofDecimal negative ⟨coefficient, exponent⟩ := by
  by_cases zero : coefficient = 0
  · rw [zero, Nat.zero_mul, ofDecimal_zero, ofDecimal_zero]
  · have positive : 0 < coefficient := Nat.pos_of_ne_zero zero
    have scaled : 0 < coefficient * 10 ^ k := by positivity
    have tops : ((Nat.toDigits 10 (coefficient * 10 ^ k)).length : Int) + (exponent - k) =
        (Nat.toDigits 10 coefficient).length + exponent := by
      rw [toDigits_mul_pow positive, List.length_append, List.length_replicate]
      push_cast
      omega
    have powers : k + (exponent - k).toNat + (-exponent).toNat =
        exponent.toNat + (-(exponent - k)).toNat := by omega
    have quotients : ofQuotient negative
        (coefficient * 10 ^ k * Nat.pow 10 (exponent - k).toNat)
        (Nat.pow 10 (-(exponent - k)).toNat) =
        ofQuotient negative (coefficient * Nat.pow 10 exponent.toNat)
          (Nat.pow 10 (-exponent).toNat) := by
      simp only [Nat.pow_eq]
      refine ofQuotient_congr negative (by positivity) (by positivity) (by positivity)
        (by positivity) ?_
      calc coefficient * 10 ^ k * 10 ^ (exponent - k).toNat * 10 ^ (-exponent).toNat
          = coefficient * 10 ^ (k + (exponent - k).toNat + (-exponent).toNat) := by
            rw [Nat.pow_add, Nat.pow_add]
            ring
        _ = coefficient * 10 ^ (exponent.toNat + (-(exponent - k)).toNat) := by rw [powers]
        _ = coefficient * 10 ^ exponent.toNat * 10 ^ (-(exponent - k)).toNat := by
            rw [Nat.pow_add]
            ring
    have nonzero : coefficient * 10 ^ k ≠ 0 := Nat.ne_of_gt scaled
    simp only [ofDecimal, tops, quotients, zero, nonzero]

/-! Doubles as quotients -/

theorem fractionField_lt (d : Double) : d.fractionField < binade :=
  Nat.mod_lt _ (by decide)

theorem magnitude_eq_fields (d : Double) :
    d.exponentField * binade + d.fractionField = d.magnitude.val := by
  rw [exponentField, fractionField, Nat.mul_comm]
  exact Nat.div_add_mod d.magnitude.val binade

theorem significand_lt (d : Double) : d.significand < 2 * binade := by
  have fraction := d.fractionField_lt
  unfold significand
  split <;> omega

theorem significand_pos {d : Double} (nonzero : d.magnitude.val ≠ 0) : 0 < d.significand := by
  have fields := d.magnitude_eq_fields
  unfold significand
  split
  · rename_i subnormal
    rw [subnormal] at fields
    omega
  · exact Nat.add_pos_left (by decide) _

theorem numerator_pos {d : Double} (nonzero : d.magnitude.val ≠ 0) : 0 < d.numerator := by
  have positive := significand_pos nonzero
  rw [numerator, Nat.shiftLeft_eq]
  positivity

theorem denominator_pos (d : Double) : 0 < d.denominator := by
  rw [denominator, Nat.shiftLeft_eq]
  positivity

theorem quotient_eq (d : Double) :
    (d.numerator : ℚ) / d.denominator = d.significand * (2 : ℚ) ^ d.scale := by
  have split : d.scale = (d.scale.toNat : Int) - (-d.scale).toNat := by omega
  have power : (2 : ℚ) ^ d.scale = 2 ^ d.scale.toNat / 2 ^ (-d.scale).toNat := by
    conv_lhs => rw [split]
    rw [zpow_sub₀ (by norm_num), zpow_natCast, zpow_natCast]
  rw [numerator, denominator, Nat.shiftLeft_eq, Nat.shiftLeft_eq, power]
  push_cast
  ring

/-- The scale that rounding finds for a double's own quotient is the double's. -/
theorem scale_binaryExponent {d : Double} (nonzero : d.magnitude.val ≠ 0) :
    max (binaryExponent d.numerator d.denominator - 52) (-1074) = d.scale := by
  have numerator := numerator_pos nonzero
  have denominator := d.denominator_pos
  have quotient := quotient_pos numerator denominator
  have power : (0 : ℚ) < 2 ^ d.scale := by positivity
  have one : (1 : Nat) < 2 := by decide
  rw [binaryExponent_eq_log numerator denominator]
  rw [quotient_eq] at quotient ⊢
  by_cases subnormal : d.exponentField = 0
  · have scale : d.scale = -1074 := by simp [Double.scale, subnormal]
    have small : (d.significand : ℚ) < 2 ^ (52 : Int) := by
      have bound := d.fractionField_lt
      rw [significand, if_pos subnormal]
      exact_mod_cast bound
    have high : Int.log 2 ((d.significand : ℚ) * 2 ^ d.scale) < 52 + d.scale := by
      rw [← Int.lt_zpow_iff_log_lt one quotient]
      push_cast
      rw [zpow_add₀ (by norm_num)]
      gcongr
    omega
  · have normal : -1074 ≤ d.scale := by
      unfold Double.scale
      omega
    have least : (2 : ℚ) ^ (52 : Int) ≤ d.significand := by
      rw [significand, if_neg subnormal]
      exact_mod_cast Nat.le_add_right binade d.fractionField
    have most : (d.significand : ℚ) < 2 ^ (53 : Int) := by
      have bound := d.significand_lt
      exact_mod_cast bound
    have low : 52 + d.scale ≤ Int.log 2 ((d.significand : ℚ) * 2 ^ d.scale) := by
      rw [← Int.zpow_le_iff_le_log one quotient]
      push_cast
      rw [zpow_add₀ (by norm_num)]
      gcongr
    have high : Int.log 2 ((d.significand : ℚ) * 2 ^ d.scale) < 53 + d.scale := by
      rw [← Int.lt_zpow_iff_log_lt one quotient]
      push_cast
      rw [zpow_add₀ (by norm_num)]
      gcongr
    omega

/-- A finite double is what its own quotient rounds to. -/
theorem ofQuotient_self {d : Double} (finite : d.isFinite = true) (nonzero : d.magnitude.val ≠ 0) :
    ofQuotient d.negative d.numerator d.denominator = d := by
  have rounded : roundQuotient (d.numerator <<< (-d.scale).toNat)
      (d.denominator <<< d.scale.toNat) = d.significand := by
    rw [numerator, denominator]
    simp only [Nat.shiftLeft_eq]
    calc roundQuotient (d.significand * 2 ^ d.scale.toNat * 2 ^ (-d.scale).toNat)
          (1 * 2 ^ (-d.scale).toNat * 2 ^ d.scale.toNat)
        = roundQuotient d.significand 1 :=
          roundQuotient_congr (by positivity) (by decide) (by ring)
      _ = d.significand := roundQuotient_one _
  have placed : (d.scale + 1074).toNat * binade + d.significand = d.magnitude.val := by
    have fields := d.magnitude_eq_fields
    unfold significand Double.scale
    by_cases subnormal : d.exponentField = 0
    · rw [if_pos subnormal]
      rw [subnormal] at fields ⊢
      exact fields
    · have offset : (((max d.exponentField 1 : Nat) : Int) - 1075 + 1074).toNat + 1 =
          d.exponentField := by omega
      rw [if_neg subnormal, ← Nat.add_assoc, ← Nat.succ_mul, Nat.succ_eq_add_one, offset]
      exact fields
  have bound : d.magnitude.val < infiniteMagnitude := by
    have below := of_decide_eq_true finite
    exact below
  unfold ofQuotient
  simp only [scale_binaryExponent nonzero, rounded, placed, dif_pos bound]

end Double

end MongoShell
