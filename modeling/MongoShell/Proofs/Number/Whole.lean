import MongoShell.Proofs.Number.Nearest

/-! The whole number that a double holds. It is the double's number, and one so small that all whole
numbers up to its size are doubles. A decimal is thus read as the whole number that the nearest
double is, and a whole number as itself; but so is a fraction that is too fine for a double. -/

namespace MongoShell

namespace Double

/-- A double holds a whole number if that is its number, and small enough. -/
theorem integer?_eq_some_iff {d : Double} {n : Int} :
    d.integer? = some n ↔ d.isFinite = true ∧ d.value = n ∧ |n| < 2 ^ 53 := by
  have positive : (0 : ℚ) < d.denominator := by exact_mod_cast d.denominator_pos
  have size : |d.value| * d.denominator = d.numerator := by
    rw [abs_value, ← two_zpow_scale, ← quotient_eq, div_mul_cancel₀ _ (ne_of_gt positive)]
  unfold integer?
  simp only
  split
  · rename_i whole
    obtain ⟨finite, divides, small⟩ := whole
    have product := Nat.div_mul_cancel (Nat.dvd_of_mod_eq_zero divides)
    generalize d.numerator / d.denominator = quotient at small product ⊢
    have parts : (d.significand : ℚ) * 2 ^ d.scale = quotient := by
      rw [← quotient_eq, div_eq_iff (ne_of_gt positive)]
      exact_mod_cast product.symm
    have shown : d.value = ((if d.negative then -(quotient : Int) else quotient : Int) : ℚ) := by
      rw [value, parts]
      cases d.negative <;> simp [signed]
    have least : |if d.negative then -(quotient : Int) else quotient| < 2 ^ 53 := by
      have cast : (2 : Int) * binade = 2 ^ 53 := by decide
      cases d.negative <;> simp <;> omega
    rw [Option.some.injEq, shown, Int.cast_inj]
    refine ⟨?_, fun same => same.2.1⟩
    rintro rfl
    exact ⟨finite, rfl, least⟩
  · rename_i none
    constructor
    · intro same
      cases same
    rintro ⟨finite, shown, small⟩
    refine absurd ⟨finite, ?_⟩ none
    have product : n.natAbs * d.denominator = d.numerator := by
      rw [shown, ← Int.cast_abs, Int.abs_eq_natAbs] at size
      exact_mod_cast size
    have bound : n.natAbs < 2 * binade := by
      have cast : (2 : Int) * binade = 2 ^ 53 := by decide
      rw [Int.abs_eq_natAbs] at small
      omega
    rw [← product, Nat.mul_mod_left, Nat.mul_div_cancel _ d.denominator_pos]
    exact ⟨rfl, bound⟩

/-- The least doubles with whole numbers that may have been rounded. -/
def wide (negative : Bool) : Double := ⟨negative, ⟨1076 * binade, by decide⟩⟩

theorem value_wide (negative : Bool) : (wide negative).value = signed negative (2 ^ 53) := by
  have size : ((wide negative).significand : ℚ) * 2 ^ (wide negative).scale = 2 ^ 53 := by
    norm_num [wide, significand, scale, exponentField, fractionField, binade]
  rw [value, size]
  rfl

/-- The nearest double of a large number is large. -/
theorem Nearest.large {d : Double} {v : ℚ} (near : d.Nearest v) (large : 2 ^ 53 ≤ |v|) :
    2 ^ 53 ≤ |d.value| := by
  by_contra small
  obtain ⟨least, most⟩ := abs_lt.mp (not_le.mp small)
  rcases le_abs.mp large with positive | negative
  · have nearer := near.nearest (wide false) rfl
    rw [value_wide, signed, if_neg Bool.false_ne_true, abs_of_nonneg (by linarith),
      abs_of_nonneg (by linarith)] at nearer
    linarith
  · have nearer := near.nearest (wide true) rfl
    rw [value_wide, signed, if_pos rfl, abs_of_nonpos (by linarith),
      abs_of_nonpos (by linarith)] at nearer
    linarith

/-- A decimal is read as a whole number exactly if that is the number of the nearest double, and
small. -/
theorem integer?_ofDecimal (negative : Bool) (d : Decimal) (n : Int) :
    (ofDecimal negative d).integer? = some n ↔
      |n| < 2 ^ 53 ∧ ∃ near : Double, near.Nearest (signed negative d.value) ∧ near.value = n := by
  rw [integer?_eq_some_iff]
  have beyond (large : 2 ^ 53 ≤ d.value) : ¬(|n| < 2 ^ 53 ∧
      ∃ near : Double, near.Nearest (signed negative d.value) ∧ near.value = n) := by
    rintro ⟨small, near, nearest, same⟩
    have bound := nearest.large (by rw [abs_signed]; exact le_trans large (le_abs_self _))
    rw [same] at bound
    have cast : (2 : Int) ^ 53 ≤ |n| := by exact_mod_cast bound
    exact absurd small (not_lt.mpr cast)
  rcases ofDecimal_cases negative d with ⟨place, multiple, rounds, shown⟩ | ⟨shown, large⟩
  · rw [shown]
    rcases rounds.ofMultiple_cases negative with ⟨finite, -, -⟩ | ⟨infinite, large⟩
    · refine ⟨fun ⟨_, same, small⟩ => ⟨small, _, rounds.nearest finite, same⟩, ?_⟩
      rintro ⟨small, near, nearest, same⟩
      exact ⟨finite, by rw [← rounds.value_eq_of_nearest finite nearest, same], small⟩
    · rw [infinite]
      exact iff_of_false nofun (beyond large)
  · rw [shown]
    exact iff_of_false (fun held => Bool.noConfusion held.1) (beyond large)

/-- A whole number that is small is a double's number. -/
theorem exists_value_signed (negative : Bool) {n : Nat} (small : n < 2 ^ 53) :
    ∃ d : Double, d.isFinite = true ∧ d.value = signed negative n := by
  have size : Decimal.value ⟨n, 0⟩ = n := by rw [Decimal.value, zpow_zero, mul_one]
  have bound : (n : ℚ) < 2 ^ 53 := by exact_mod_cast small
  refine ⟨ofDecimal negative ⟨n, 0⟩, ?_⟩
  rcases ofDecimal_cases negative ⟨n, 0⟩ with ⟨place, multiple, rounds, shown⟩ | ⟨-, large⟩
  · rw [size] at rounds
    rw [shown]
    rcases rounds.ofMultiple_cases negative with ⟨finite, value, -⟩ | ⟨-, large⟩
    · have lowest : place ≤ 1074 := by
        by_contra high
        have two := two_le_unit (Nat.not_le.mp high)
        have low := rounds.low.resolve_left (by omega)
        linarith
      -- the unit divides one, so the number is a multiple already
      obtain ⟨more, whole⟩ := Nat.exists_eq_add_of_le lowest
      have one : 2 ^ more * unit place = 1 := by
        rw [mul_comm, ← unit_add, ← whole]
        norm_num [unit]
      have own : (((n * 2 ^ more : Nat) : Int) : ℚ) * unit place = n := by
        push_cast
        rw [mul_assoc, one, mul_one]
      have exactly : multiple * unit place = (n : ℚ) := by
        by_cases same : ((n * 2 ^ more : Nat) : Int) = multiple
        · rw [← own, same, Int.cast_natCast]
        · have nearest := (rounds.multiple_le same).1
          rw [own, sub_self, abs_zero, abs_nonpos_iff, sub_eq_zero] at nearest
          exact nearest.symm
      rw [value, exactly]
      exact ⟨finite, rfl⟩
    · linarith
  · rw [size] at large
    linarith

theorem exists_value_eq {n : Int} (small : |n| < 2 ^ 53) :
    ∃ d : Double, d.isFinite = true ∧ d.value = n := by
  rw [abs_lt] at small
  obtain ⟨k, rfl | rfl⟩ := n.eq_nat_or_neg
  · exact exists_value_signed false (by omega)
  · obtain ⟨d, finite, shown⟩ := exists_value_signed true (by omega : k < 2 ^ 53)
    exact ⟨d, finite, by rw [shown, signed, if_pos rfl, Int.cast_neg, Int.cast_natCast]⟩

/-- A finite double is the nearest to its own number. -/
theorem nearest_value {d : Double} (finite : d.isFinite = true) : d.Nearest d.value where
  finite := finite
  nearest other _ := by
    rw [sub_self, abs_zero]
    exact abs_nonneg _
  even other _ differ tie := by
    rw [sub_self, abs_zero, abs_eq_zero, sub_eq_zero] at tie
    exact absurd tie.symm differ

/-- The nearest double is not beyond a small whole number that the number itself is not beyond. -/
theorem Nearest.same_side {d : Double} {v : ℚ} {z : Int} (near : d.Nearest v)
    (small : |z| < 2 ^ 53) :
    (z ≤ v → z ≤ d.value) ∧ (v ≤ z → d.value ≤ z) := by
  obtain ⟨own, finite, shown⟩ := exists_value_eq small
  have nearer := near.nearest own finite
  rw [shown] at nearer
  constructor
  · intro least
    rw [abs_of_nonneg (sub_nonneg.mpr least)] at nearer
    linarith [le_abs_self (v - d.value)]
  · intro most
    rw [abs_of_nonpos (sub_nonpos.mpr most)] at nearer
    linarith [neg_le_abs (v - d.value)]

/-- Of a whole number the nearest double, if it holds a small one, holds no other. -/
theorem Nearest.eq_of_whole {d : Double} {z n : Int} (near : d.Nearest z) (shown : d.value = n)
    (small : |n| < 2 ^ 53) : n = z := by
  by_cases large : (2 : ℚ) ^ 53 ≤ |(z : ℚ)|
  · have bound := near.large large
    rw [shown] at bound
    have cast : (2 : Int) ^ 53 ≤ |n| := by exact_mod_cast bound
    exact absurd small (not_lt.mpr cast)
  · have less : |z| < 2 ^ 53 := by exact_mod_cast not_le.mp large
    obtain ⟨own, finite, same⟩ := exists_value_eq less
    have nearest := near.nearest own finite
    rw [same, sub_self, abs_zero, abs_nonpos_iff, sub_eq_zero, shown] at nearest
    exact_mod_cast nearest.symm

end Double

end MongoShell
