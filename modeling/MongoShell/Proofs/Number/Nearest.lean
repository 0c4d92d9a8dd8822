import MongoShell.Proofs.Number.Shortest

/-! Rounding finds the nearest double. A decimal number is rounded to a multiple of a unit, the
least digit of the doubles of its size; every other double is such a multiple as well, or smaller
than all numbers of that size. So no double is nearer to the number, and of two that are as near it
is the even one that is found. -/

namespace MongoShell

namespace Double

/-- A number with a sign. -/
def signed (negative : Bool) (q : ℚ) : ℚ := if negative then -q else q

/-- The number that a finite double stands for. -/
def value (d : Double) : ℚ := signed d.negative (d.significand * 2 ^ d.scale)

/-- A finite double such that no other is nearer to a number; if another is as near, it is even. -/
structure Nearest (d : Double) (v : ℚ) : Prop where
  finite : d.isFinite = true
  nearest : ∀ other : Double, other.isFinite = true → |v - d.value| ≤ |v - other.value|
  even : ∀ other : Double, other.isFinite = true → other.value ≠ d.value →
    |v - other.value| = |v - d.value| → Even d.significand

/-! Signs -/

theorem abs_signed (negative : Bool) (q : ℚ) : |signed negative q| = |q| := by
  cases negative with
  | true => exact abs_neg q
  | false => rfl

theorem signed_signed (negative : Bool) (q : ℚ) : signed negative (signed negative q) = q := by
  cases negative with
  | true => exact neg_neg q
  | false => rfl

theorem signed_sub (negative : Bool) (p q : ℚ) :
    signed negative p - signed negative q = signed negative (p - q) := by
  cases negative with
  | true =>
    change -p - -q = -(p - q)
    ring
  | false => rfl

/-- The same number on the other side of zero. -/
def withSign (negative : Bool) (d : Double) : Double := ⟨d.negative ^^ negative, d.magnitude⟩

theorem value_withSign (negative : Bool) (d : Double) :
    (d.withSign negative).value = signed negative d.value := by
  obtain ⟨sign, magnitude⟩ := d
  cases sign <;> cases negative <;> simp [withSign, value, signed, significand, scale,
    exponentField, fractionField]

/-! Quotients -/

/-- A quotient is off its rounding by half at most; if by half, the rounding is even. -/
theorem roundQuotient_spec (n : Nat) {d : Nat} (positive : 0 < d) :
    |(n : ℚ) / d - roundQuotient n d| ≤ 1 / 2 ∧
      (|(n : ℚ) / d - roundQuotient n d| = 1 / 2 → Even (roundQuotient n d)) := by
  have dPositive : (0 : ℚ) < d := by exact_mod_cast positive
  have remainder : n % d < d := Nat.mod_lt n positive
  have parts : (n : ℚ) / d = (n / d : Nat) + (n % d : Nat) / d := by
    rw [div_eq_iff (ne_of_gt dPositive), add_mul, div_mul_cancel₀ _ (ne_of_gt dPositive)]
    exact_mod_cast (Nat.div_add_mod' n d).symm
  have nonneg : (0 : ℚ) ≤ (n % d : Nat) / d := by positivity
  rw [parts, roundQuotient]
  split
  · rename_i below
    have half : ((n % d : Nat) : ℚ) / d ≤ 1 / 2 := by
      rw [div_le_iff₀ dPositive]
      have doubled : 2 * (n % d) ≤ d := by omega
      have cast : (2 : ℚ) * (n % d : Nat) ≤ d := by exact_mod_cast doubled
      linarith
    rw [add_sub_cancel_left, abs_of_nonneg nonneg]
    refine ⟨half, fun tie => ?_⟩
    rcases below with less | ⟨-, even⟩
    · have cast : (2 : ℚ) * (n % d : Nat) < d := by exact_mod_cast less
      rw [div_eq_iff (ne_of_gt dPositive)] at tie
      linarith
    · exact Nat.even_iff.mpr even
  · rename_i above
    have atLeast : d ≤ 2 * (n % d) := by omega
    have half : 1 / 2 ≤ ((n % d : Nat) : ℚ) / d := by
      rw [le_div_iff₀ dPositive]
      have cast : (d : ℚ) ≤ 2 * (n % d : Nat) := by exact_mod_cast atLeast
      linarith
    have most : ((n % d : Nat) : ℚ) / d ≤ 1 := by
      rw [div_le_one dPositive]
      exact_mod_cast remainder.le
    have error : ((n / d : Nat) : ℚ) + (n % d : Nat) / d - ((n / d + 1 : Nat) : ℚ) =
        -(1 - (n % d : Nat) / d) := by
      push_cast
      ring
    have errorNonneg : (0 : ℚ) ≤ 1 - (n % d : Nat) / d := by linarith
    rw [error, abs_neg, abs_of_nonneg errorNonneg]
    refine ⟨by linarith, fun tie => ?_⟩
    have exactly : ((n % d : Nat) : ℚ) / d = 1 / 2 := by linarith
    rw [div_eq_iff (ne_of_gt dPositive)] at exactly
    have cast : (2 : ℚ) * (n % d : Nat) = d := by linarith
    have doubled : 2 * (n % d) = d := by exact_mod_cast cast
    rw [Nat.even_iff]
    omega

/-! Places -/

/-- The unit of the least digit at a place, of which the lowest is that of the smallest doubles. -/
def unit (place : Nat) : ℚ := 2 ^ ((place : Int) - 1074)

/-- The place of the least digit of a double. -/
def place (d : Double) : Nat := max d.exponentField 1 - 1

theorem unit_pos (place : Nat) : 0 < unit place := by
  unfold unit
  positivity

theorem unit_add (place more : Nat) : unit (place + more) = unit place * 2 ^ more := by
  unfold unit
  rw [← zpow_natCast, ← zpow_add₀ (by norm_num)]
  congr 1
  push_cast
  ring

theorem two_le_unit {place : Nat} (high : 1075 ≤ place) : 2 ≤ unit place := by
  obtain ⟨more, rfl⟩ := Nat.exists_eq_add_of_le high
  have two : unit 1075 = 2 := by norm_num [unit]
  have power : (1 : ℚ) ≤ 2 ^ more := one_le_pow₀ (by norm_num)
  rw [unit_add, two]
  linarith

theorem two_zpow_scale (d : Double) : (2 : ℚ) ^ d.scale = unit d.place := by
  unfold unit place scale
  congr 1
  omega

theorem abs_value (d : Double) : |d.value| = d.significand * unit d.place := by
  have nonneg : 0 ≤ (d.significand : ℚ) * unit d.place := by
    have positive := unit_pos d.place
    positivity
  rw [value, two_zpow_scale, abs_signed, abs_of_nonneg nonneg]

/-- A double is a multiple of the unit at a place, or less than all numbers with 53 digits there. -/
theorem multiple_or_small (d : Double) (place : Nat) :
    (∃ k : Int, d.value = k * unit place ∧ (Even d.significand → Even k)) ∨
      0 < place ∧ |d.value| < 2 ^ 52 * unit place := by
  by_cases higher : place ≤ d.place
  · obtain ⟨more, same⟩ := Nat.exists_eq_add_of_le higher
    let k : Int := d.significand * 2 ^ more
    have even (parity : Even d.significand) : Even k :=
      ((Int.even_coe_nat _).mpr parity).mul_right _
    have size : (d.significand : ℚ) * 2 ^ d.scale = k * unit place := by
      rw [two_zpow_scale, same, unit_add]
      push_cast [k]
      ring
    left
    rw [value, size]
    cases d.negative with
    | true =>
      refine ⟨-k, ?_, fun parity => (even parity).neg⟩
      push_cast
      change -((k : ℚ) * unit place) = _
      ring
    | false => exact ⟨k, rfl, even⟩
  · obtain ⟨less, rfl⟩ := Nat.exists_eq_add_of_lt (Nat.not_le.mp higher)
    have bound : (d.significand : ℚ) < 2 ^ 53 := by exact_mod_cast d.significand_lt
    have positive := unit_pos d.place
    have power : (1 : ℚ) ≤ 2 ^ less := one_le_pow₀ (by norm_num)
    refine .inr ⟨by omega, ?_⟩
    rw [abs_value, Nat.add_assoc, unit_add]
    calc (d.significand : ℚ) * unit d.place < 2 ^ 53 * unit d.place := by gcongr
      _ = 2 ^ 52 * (unit d.place * (1 * 2)) := by ring
      _ ≤ 2 ^ 52 * (unit d.place * (2 ^ less * 2)) := by gcongr
      _ = 2 ^ 52 * (unit d.place * 2 ^ (less + 1)) := by rw [pow_succ 2 less]

/-! Rounding to a place -/

/-- A number that is rounded to a multiple of the unit at a place, which its size determines. -/
structure RoundsTo (q : ℚ) (place multiple : Nat) : Prop where
  low : place = 0 ∨ 2 ^ 52 * unit place ≤ q
  high : q < 2 ^ 53 * unit place
  error : |q - multiple * unit place| ≤ unit place / 2
  even : |q - multiple * unit place| = unit place / 2 → Even multiple

namespace RoundsTo

variable {q : ℚ} {place multiple : Nat} (rounds : RoundsTo q place multiple)

include rounds

/-- Another multiple is not nearer; if it is as near, it is odd and the rounding is even. -/
theorem multiple_le {k : Int} (other : k ≠ multiple) :
    |q - multiple * unit place| ≤ |q - k * unit place| ∧
      (|q - k * unit place| = |q - multiple * unit place| → Even multiple ∧ ¬Even k) := by
  have positive := unit_pos place
  have apart (more : ℚ) (far : more ≤ |(k : ℚ) - multiple|) :
      more * unit place - |q - multiple * unit place| ≤ |q - k * unit place| := by
    have between : |(k : ℚ) * unit place - multiple * unit place| ≤
        |q - multiple * unit place| + |q - k * unit place| := by
      have parts : (k : ℚ) * unit place - multiple * unit place =
          (q - multiple * unit place) - (q - k * unit place) := by ring
      rw [parts]
      exact abs_sub _ _
    rw [← sub_mul, abs_mul, abs_of_pos positive] at between
    have scaled : more * unit place ≤ |(k : ℚ) - multiple| * unit place := by gcongr
    linarith
  have one : (1 : ℚ) ≤ |(k : ℚ) - multiple| := by
    have whole : 1 ≤ |k - multiple| := Int.one_le_abs (sub_ne_zero.mpr other)
    exact_mod_cast whole
  have near := apart 1 one
  have error := rounds.error
  refine ⟨by linarith, fun tie => ?_⟩
  have half : |q - multiple * unit place| = unit place / 2 := by linarith
  have parity := rounds.even half
  refine ⟨parity, fun even => ?_⟩
  -- two even multiples are two units apart
  have two : (2 : ℚ) ≤ |(k : ℚ) - multiple| := by
    have difference : Even (k - multiple) := even.sub ((Int.even_coe_nat _).mpr parity)
    have whole : 2 ≤ |k - multiple| := by
      obtain ⟨j, shown⟩ := difference
      have nonzero : k - multiple ≠ 0 := sub_ne_zero.mpr other
      rw [le_abs]
      omega
    exact_mod_cast whole
  have far := apart 2 two
  linarith

/-- No double is nearer; if another is as near, it is odd and the rounding is even. -/
theorem double_le {d : Double} (other : d.value ≠ multiple * unit place) :
    |q - multiple * unit place| ≤ |q - d.value| ∧
      (|q - d.value| = |q - multiple * unit place| → Even multiple ∧ ¬Even d.significand) := by
  have positive := unit_pos place
  rcases d.multiple_or_small place with ⟨k, shown, even⟩ | ⟨above, small⟩
  · rw [shown] at other ⊢
    have different : k ≠ multiple := by
      rintro rfl
      exact other (by push_cast; rfl)
    obtain ⟨nearest, tie⟩ := rounds.multiple_le different
    exact ⟨nearest, fun same => (tie same).imp_right (mt even)⟩
  · have low := rounds.low.resolve_left (Nat.ne_of_gt above)
    have size := abs_lt.mp small
    have beyond : q - 2 ^ 52 * unit place < |q - d.value| := by
      rw [abs_of_nonneg (by linarith)]
      linarith
    -- the least number of this size is a multiple itself
    have least : |q - multiple * unit place| ≤ q - 2 ^ 52 * unit place := by
      have nonneg : 0 ≤ q - 2 ^ 52 * unit place := by linarith
      by_cases same : (2 : Int) ^ 52 = multiple
      · have cast := congrArg (Int.cast : Int → ℚ) same
        rw [Int.cast_pow, Int.cast_ofNat, Int.cast_natCast] at cast
        rw [← cast, abs_of_nonneg nonneg]
      · have nearest := (rounds.multiple_le same).1
        rwa [Int.cast_pow, Int.cast_ofNat, abs_of_nonneg nonneg] at nearest
    exact ⟨by linarith, fun tie => by linarith⟩

theorem multiple_low : place = 0 ∨ binade ≤ multiple := by
  refine rounds.low.imp_right fun low => ?_
  have positive := unit_pos place
  have error := (abs_le.mp rounds.error).2
  by_contra less
  have bound : multiple + 1 ≤ 2 ^ 52 := Nat.not_le.mp less
  have cast : (multiple : ℚ) + 1 ≤ 2 ^ 52 := by exact_mod_cast bound
  have scaled : ((multiple : ℚ) + 1) * unit place ≤ 2 ^ 52 * unit place := by gcongr
  linarith

theorem multiple_high : multiple ≤ 2 * binade := by
  have positive := unit_pos place
  have high := rounds.high
  have error := (abs_le.mp rounds.error).1
  by_contra more
  have bound : 2 ^ 53 + 1 ≤ multiple := Nat.not_le.mp more
  have cast : (2 : ℚ) ^ 53 + 1 ≤ multiple := by exact_mod_cast bound
  have scaled : ((2 : ℚ) ^ 53 + 1) * unit place ≤ multiple * unit place := by gcongr
  linarith

end RoundsTo

/-! The double of a rounding -/

/-- The double that is a multiple of the unit at a place, or infinity if that is too large. -/
def ofMultiple (negative : Bool) (place multiple : Nat) : Double :=
  if finite : place * binade + multiple < infiniteMagnitude then
    ⟨negative, ⟨place * binade + multiple, Nat.lt_trans finite (by decide)⟩⟩
  else infinity negative

theorem fields_eq {d : Double} {exponent fraction : Nat} (small : fraction < binade)
    (shown : d.magnitude.val = exponent * binade + fraction) :
    d.exponentField = exponent ∧ d.fractionField = fraction := by
  rw [exponentField, fractionField, shown, Nat.mul_comm]
  have positive : 0 < binade := by decide
  rw [Nat.mul_add_div positive, Nat.div_eq_of_lt small, Nat.mul_add_mod, Nat.mod_eq_of_lt small]
  exact ⟨rfl, rfl⟩

/-- A double's parts, from its place and its multiple. -/
theorem parts_eq {d : Double} {place multiple : Nat} (low : place = 0 ∨ binade ≤ multiple)
    (high : multiple ≤ 2 * binade) (shown : d.magnitude.val = place * binade + multiple) :
    (d.significand : ℚ) * 2 ^ d.scale = multiple * unit place ∧
      (Even multiple → Even d.significand) := by
  rw [two_zpow_scale]
  by_cases subnormal : multiple < binade
  · obtain rfl := low.resolve_right (Nat.not_le.mpr subnormal)
    obtain ⟨exponent, fraction⟩ := fields_eq subnormal shown
    rw [significand, Double.place, exponent, fraction, if_pos rfl]
    exact ⟨rfl, id⟩
  by_cases carried : multiple = 2 * binade
  · have next : d.magnitude.val = (place + 2) * binade + 0 := by
      rw [shown, carried]
      ring
    obtain ⟨exponent, fraction⟩ := fields_eq (by decide) next
    have upper : d.place = place + 1 := by
      rw [Double.place, exponent]
      omega
    rw [significand, exponent, fraction, if_neg (by omega), upper, unit_add, carried]
    refine ⟨?_, fun _ => by decide⟩
    push_cast
    ring
  · have normal : d.magnitude.val = (place + 1) * binade + (multiple - binade) := by
      rw [shown, Nat.succ_mul]
      omega
    obtain ⟨exponent, fraction⟩ := fields_eq (by omega) normal
    have same : binade + (multiple - binade) = multiple := by omega
    have here : d.place = place := by
      rw [Double.place, exponent]
      omega
    rw [significand, exponent, fraction, if_neg (by omega), here, same]
    exact ⟨rfl, id⟩

namespace RoundsTo

variable {q : ℚ} {place multiple : Nat} (rounds : RoundsTo q place multiple) {negative : Bool}

include rounds

/-- Where a rounding is finite it is its multiple; else the number is large. -/
theorem ofMultiple_cases (negative : Bool) :
    ((ofMultiple negative place multiple).isFinite = true ∧
      (ofMultiple negative place multiple).value = signed negative (multiple * unit place) ∧
      (Even multiple → Even (ofMultiple negative place multiple).significand)) ∨
    ((ofMultiple negative place multiple).isFinite = false ∧ 2 ^ 53 ≤ q) := by
  unfold ofMultiple
  split
  · rename_i finite
    obtain ⟨size, even⟩ := parts_eq
      (d := ⟨negative, ⟨place * binade + multiple, Nat.lt_trans finite (by decide)⟩⟩)
      rounds.multiple_low rounds.multiple_high rfl
    refine .inl ⟨decide_eq_true finite, ?_, even⟩
    rw [value, size]
  · rename_i infinite
    refine .inr ⟨rfl, ?_⟩
    have top : 1075 ≤ place := by
      have high := rounds.multiple_high
      by_contra less
      have product : place * binade ≤ 1074 * binade := Nat.mul_le_mul_right _ (by omega)
      have bound : 1074 * binade + 2 * binade < infiniteMagnitude := by decide
      omega
    have low := rounds.low.resolve_left (by omega)
    have two := two_le_unit top
    linarith

/-- The double that a number is rounded to, if finite, is nearest to it. -/
theorem nearest (finite : (ofMultiple negative place multiple).isFinite = true) :
    (ofMultiple negative place multiple).Nearest (signed negative q) := by
  obtain ⟨-, shown, even⟩ | ⟨infinite, -⟩ := rounds.ofMultiple_cases negative
  · have distance (other : Double) :
        |signed negative q - other.value| = |q - (other.withSign negative).value| := by
      rw [value_withSign, ← abs_signed negative (q - _), ← signed_sub, signed_signed]
    have own : |signed negative q - signed negative (multiple * unit place)| =
        |q - multiple * unit place| := by
      rw [signed_sub, abs_signed]
    refine ⟨finite, fun other _ => ?_, fun other _ different tie => ?_⟩
    · rw [shown, own, distance]
      by_cases same : (other.withSign negative).value = multiple * unit place
      · rw [same]
      · exact (rounds.double_le same).1
    · rw [shown] at different
      rw [shown, own, distance] at tie
      have different : (other.withSign negative).value ≠ multiple * unit place := by
        intro same
        rw [value_withSign] at same
        exact different (by rw [← same, signed_signed])
      exact even ((rounds.double_le different).2 tie).1
  · rw [infinite] at finite
    cases finite

/-- No other double is nearest to the number. -/
theorem value_eq_of_nearest (finite : (ofMultiple negative place multiple).isFinite = true)
    {d : Double} (near : d.Nearest (signed negative q)) :
    d.value = (ofMultiple negative place multiple).value := by
  have own := rounds.nearest finite
  obtain ⟨-, shown, -⟩ | ⟨infinite, -⟩ := rounds.ofMultiple_cases negative
  · by_contra different
    have tie : |signed negative q - d.value| =
        |signed negative q - (ofMultiple negative place multiple).value| :=
      le_antisymm (near.nearest _ finite) (own.nearest _ near.finite)
    have even := near.even _ finite (Ne.symm different) tie.symm
    have flipped : (d.withSign negative).value ≠ multiple * unit place := by
      intro same
      rw [value_withSign] at same
      exact different (by rw [shown, ← same, signed_signed])
    have tie : |q - (d.withSign negative).value| = |q - multiple * unit place| := by
      rw [shown] at tie
      rw [value_withSign, ← abs_signed negative (q - _), ← signed_sub, signed_signed, tie,
        signed_sub, abs_signed]
    exact ((rounds.double_le flipped).2 tie).2 even
  · rw [infinite] at finite
    cases finite

end RoundsTo

/-! Decimal numbers -/

/-- A quotient is rounded at the place that its logarithm gives. -/
theorem ofQuotient_rounds (negative : Bool) {n d : Nat} (nPositive : 0 < n) (dPositive : 0 < d) :
    ∃ place multiple, RoundsTo ((n : ℚ) / d) place multiple ∧
      ofQuotient negative n d = ofMultiple negative place multiple := by
  have quotient := quotient_pos nPositive dPositive
  have below := Int.zpow_log_le_self (by decide : 1 < 2) quotient
  have above := Int.lt_zpow_succ_log_self (by decide : 1 < 2) ((n : ℚ) / d)
  rw [← binaryExponent_eq_log nPositive dPositive] at below above
  push_cast at below above
  have shape : ofQuotient negative n d = ofMultiple negative
      (max (binaryExponent n d - 52) (-1074) + 1074).toNat
      (roundQuotient (n <<< (-max (binaryExponent n d - 52) (-1074)).toNat)
        (d <<< (max (binaryExponent n d - 52) (-1074)).toNat)) := rfl
  rw [shape]
  clear shape
  generalize ceiling : max (binaryExponent n d - 52) (-1074) = scale
  obtain ⟨place, shown⟩ : ∃ place : Nat, scale = (place : Int) - 1074 :=
    ⟨(scale + 1074).toNat, by omega⟩
  have index : (scale + 1074).toNat = place := by omega
  have power : (2 : ℚ) ^ scale = unit place := by rw [shown, unit]
  have positive := unit_pos place
  have scaled : ((n <<< (-scale).toNat : Nat) : ℚ) / (d <<< scale.toNat : Nat) =
      n / d / unit place := by
    have split : scale = (scale.toNat : Int) - (-scale).toNat := by omega
    have parts : unit place = 2 ^ scale.toNat / 2 ^ (-scale).toNat := by
      rw [← power]
      conv_lhs => rw [split]
      rw [zpow_sub₀ (by norm_num), zpow_natCast, zpow_natCast]
    rw [Nat.shiftLeft_eq, Nat.shiftLeft_eq, parts]
    push_cast
    field_simp
  have shifted : 0 < d <<< scale.toNat := by
    rw [Nat.shiftLeft_eq]
    positivity
  obtain ⟨error, tie⟩ := roundQuotient_spec (n <<< (-scale).toNat) shifted
  rw [scaled] at error tie
  generalize roundQuotient (n <<< (-scale).toNat) (d <<< scale.toNat) = multiple at error tie ⊢
  have distance : |(n : ℚ) / d - multiple * unit place| =
      |(n : ℚ) / d / unit place - multiple| * unit place := by
    rw [← abs_of_pos positive, ← abs_mul, abs_of_pos positive, sub_mul,
      div_mul_cancel₀ _ (ne_of_gt positive)]
  refine ⟨place, multiple, ⟨?_, ?_, ?_, ?_⟩, ?_⟩
  · by_cases lowest : place = 0
    · exact .inl lowest
    · have exponent : binaryExponent n d = scale + 52 := by omega
      rw [exponent, zpow_add₀ (by norm_num), power] at below
      refine .inr ?_
      linarith
  · have exponent : binaryExponent n d + 1 ≤ scale + 53 := by omega
    have raised : (2 : ℚ) ^ (binaryExponent n d + 1) ≤ 2 ^ (scale + 53) :=
      zpow_le_zpow_right₀ (by norm_num) exponent
    rw [zpow_add₀ (by norm_num) scale, power] at raised
    linarith
  · rw [distance]
    calc |(n : ℚ) / d / unit place - multiple| * unit place ≤ 1 / 2 * unit place := by gcongr
      _ = unit place / 2 := by ring
  · intro half
    rw [distance] at half
    refine tie (mul_right_cancel₀ (ne_of_gt positive) ?_)
    rw [half]
    ring
  · rw [index]

end Double

/-- The number that a decimal stands for. -/
def Decimal.value (d : Decimal) : ℚ := d.coefficient * 10 ^ d.exponent

namespace Double

/-- A decimal's first digit stands where its digits and its exponent put it. -/
theorem value_bounds {d : Decimal} (nonzero : d.coefficient ≠ 0) {top : Int}
    (place : (Nat.toDigits 10 d.coefficient).length + d.exponent = top) :
    (10 : ℚ) ^ (top - 1) ≤ d.value ∧ d.value < 10 ^ top := by
  have ten : (10 : ℚ) ≠ 0 := by norm_num
  have long : 0 < (Nat.toDigits 10 d.coefficient).length :=
    List.length_pos_iff.mpr Nat.toDigits_ne_nil
  generalize count : (Nat.toDigits 10 d.coefficient).length = length at place long
  have above : d.coefficient < 10 ^ length :=
    (Nat.length_toDigits_le_iff (by decide) long).mp (le_of_eq count)
  have below : 10 ^ (length - 1) ≤ d.coefficient := by
    by_cases single : length = 1
    · rw [single]
      exact Nat.pos_of_ne_zero nonzero
    · by_contra less
      have short := (Nat.length_toDigits_le_iff (by decide) (by omega)).mpr (Nat.not_le.mp less)
      omega
  have aboveCast : (d.coefficient : ℚ) < 10 ^ length := by exact_mod_cast above
  have belowCast : (10 : ℚ) ^ (length - 1) ≤ d.coefficient := by exact_mod_cast below
  have first : top - 1 = ((length - 1 : Nat) : Int) + d.exponent := by omega
  rw [first, ← place, zpow_add₀ ten, zpow_add₀ ten, zpow_natCast, zpow_natCast, Decimal.value]
  exact ⟨by gcongr, by gcongr⟩

/-- A power of ten that is less than half the smallest double. -/
theorem ten_zpow_lt {top : Int} (low : top < -330) : (10 : ℚ) ^ top < unit 0 / 2 := by
  -- The powers stay symbols, so that they are not worked out.
  obtain ⟨n, eleven⟩ : ∃ n, n = 11 := ⟨11, rfl⟩
  obtain ⟨p, power⟩ : ∃ p : Nat, p = 1075 := ⟨1075, rfl⟩
  obtain ⟨k, rfl⟩ : ∃ k : Nat, top = -(k : Int) := ⟨top.natAbs, by omega⟩
  have less : 2 ^ p < 10 ^ k := by
    calc 2 ^ p ≤ 10 ^ (28 * n) * 2 ^ 52 := two_pow_le (by omega)
      _ < 10 ^ (28 * n) * 10 ^ 22 := by gcongr; decide
      _ = 10 ^ (28 * n + 22) := (Nat.pow_add 10 _ _).symm
      _ ≤ 10 ^ k := Nat.pow_le_pow_right (by decide) (by omega)
  have cast : (2 : ℚ) ^ p < 10 ^ k := by exact_mod_cast less
  have half : unit 0 / 2 = (2 ^ p)⁻¹ := by
    have exponent : ((0 : Nat) : Int) - 1074 = -(p : Int) + 1 := by omega
    rw [unit, exponent, zpow_add₀ (by norm_num), zpow_neg, zpow_natCast, zpow_one]
    exact mul_div_cancel_right₀ _ (by norm_num)
  rw [half, zpow_neg, zpow_natCast]
  exact inv_strictAnti₀ (by positivity) cast

theorem RoundsTo.zero {q : ℚ} (nonneg : 0 ≤ q) (small : q < unit 0 / 2) : RoundsTo q 0 0 := by
  have positive := unit_pos 0
  refine ⟨.inl rfl, by linarith, ?_, fun _ => by decide⟩
  rw [Nat.cast_zero, zero_mul, sub_zero, abs_of_nonneg nonneg]
  exact small.le

/-- A decimal is rounded to a multiple of a unit, or it is large and counts as infinite. -/
theorem ofDecimal_cases (negative : Bool) (d : Decimal) :
    (∃ place multiple, RoundsTo d.value place multiple ∧
      ofDecimal negative d = ofMultiple negative place multiple) ∨
    (ofDecimal negative d = infinity negative ∧ 2 ^ 53 ≤ d.value) := by
  unfold ofDecimal
  simp only
  split
  · rename_i tiny
    refine .inl ⟨0, 0, ?_, by simp [ofMultiple, infiniteMagnitude]⟩
    by_cases none : d.coefficient = 0
    · have positive := unit_pos 0
      have zero : d.value = 0 := by simp [Decimal.value, none]
      rw [zero]
      exact .zero le_rfl (by linarith)
    · obtain ⟨below, above⟩ := value_bounds none rfl
      have least : 0 ≤ d.value := le_trans (by positivity) below
      have lower := tiny.resolve_left none
      refine .zero least (lt_of_lt_of_le above ?_)
      exact (ten_zpow_lt lower).le
  · rename_i some
    split
    · rename_i high
      refine .inr ⟨rfl, ?_⟩
      obtain ⟨below, -⟩ := value_bounds (not_or.mp some).1 rfl
      have large : (10 : ℚ) ^ (16 : Int) ≤ 10 ^
          ((Nat.toDigits 10 d.coefficient).length + d.exponent - 1) :=
        zpow_le_zpow_right₀ (by norm_num) (by omega)
      have sixteen : (2 : ℚ) ^ 53 ≤ 10 ^ (16 : Int) := by norm_num
      exact le_trans sixteen (le_trans large below)
    · obtain ⟨nonzero, -⟩ := not_or.mp some
      have quotient : ((d.coefficient * Nat.pow 10 d.exponent.toNat : Nat) : ℚ) /
          (Nat.pow 10 (-d.exponent).toNat : Nat) = d.value := by
        have split : d.exponent = (d.exponent.toNat : Int) - (-d.exponent).toNat := by omega
        rw [Decimal.value, Nat.pow_eq, Nat.pow_eq]
        conv_rhs => rw [split]
        rw [zpow_sub₀ (by norm_num), zpow_natCast, zpow_natCast]
        push_cast
        ring
      rw [← quotient]
      refine .inl (ofQuotient_rounds negative ?_ ?_)
      · have positive := Nat.pos_of_ne_zero nonzero
        rw [Nat.pow_eq]
        positivity
      · rw [Nat.pow_eq]
        positivity

end Double

end MongoShell
