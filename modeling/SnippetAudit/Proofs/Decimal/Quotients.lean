import SnippetAudit.Proofs.Decimal.Halves
import SnippetAudit.Proofs.Decimal.Shortest

/-!
Quotients of whole numbers as doubles.

A quotient of doubles that is made a whole number has been rounded twice. For numbers below 2 ^ 52
this is no loss: dividing does not carry a quotient to a half or over it, and a half is a double.
-/

set_option autoImplicit false

namespace SnippetAudit.Decimal

/-! The closest double -/

private theorem exists_near {y : ℚ} (nonneg : 0 ≤ y) : ∃ n, Near n y := by
  have near := near_roundDiv y.num.toNat y.den_pos
  have whole : ((y.num.toNat : Nat) : ℚ) = y.num := by
    exact_mod_cast Int.toNat_of_nonneg (Rat.num_nonneg.mpr nonneg)
  rw [whole, Rat.num_div_den] at near
  exact ⟨_, near⟩

/-- Scaled by the right power of two, a number has 53 places before the point. -/
theorem scaled_log {x : ℚ} (positive : 0 < x) :
    2 ^ 52 ≤ x / 2 ^ (Int.log 2 x - 52) ∧ x / 2 ^ (Int.log 2 x - 52) < 2 ^ 53 := by
  have unit : (0 : ℚ) < 2 ^ (Int.log 2 x - 52) := by positivity
  have low := Int.zpow_log_le_self one_lt_two positive
  have high := Int.lt_zpow_succ_log_self one_lt_two x
  constructor
  · rw [le_div_iff₀ unit, ← zpow_natCast, ← zpow_add₀ (two_ne_zero' ℚ)]
    simpa using low
  · rw [div_lt_iff₀ unit, ← zpow_natCast, ← zpow_add₀ (two_ne_zero' ℚ)]
    have sum : ((53 : Nat) : Int) + (Int.log 2 x - 52) = Int.log 2 x + 1 := by push_cast; ring
    rw [sum]
    exact_mod_cast high

private theorem exists_close {x : ℚ} (low : 2 ^ (-1022 : Int) ≤ x) (high : x < 2 ^ (1023 : Int)) :
    ∃ mantissa exponent, Canonical mantissa exponent ∧ 2 ^ 52 ≤ mantissa ∧
      Close mantissa exponent x := by
  have positive : 0 < x := lt_of_lt_of_le (by positivity) low
  have lowest : -1022 ≤ Int.log 2 x :=
    (Int.zpow_le_iff_le_log one_lt_two positive).mp (by rwa [Nat.cast_ofNat])
  have highest : Int.log 2 x < 1023 :=
    (Int.lt_zpow_iff_log_lt one_lt_two positive).mp (by rwa [Nat.cast_ofNat])
  obtain ⟨atLeast, below⟩ := scaled_log positive
  generalize exponentIs : Int.log 2 x - 52 = exponent at atLeast below
  obtain ⟨n, near⟩ := exists_near (le_trans (by positivity) atLeast)
  have full : 2 ^ 52 ≤ n := by
    have : (2 : ℚ) ^ 52 < n + 1 := by linarith [near.high]
    exact Nat.lt_succ_iff.mp (by exact_mod_cast this)
  have most : n ≤ 2 ^ 53 := by
    have : (n : ℚ) < 2 ^ 53 + 1 := by linarith [near.low]
    exact Nat.lt_succ_iff.mp (by exact_mod_cast this)
  rcases Nat.lt_or_eq_of_le most with fits | carried
  · refine ⟨n, exponent, ⟨by omega, fits, by omega, by omega, .inl full⟩, full, near, ?_⟩
    intro power _
    rw [power]
    push_cast
    linarith
  · -- The mantissa has become a place longer, so it is halved.
    have halved : x / 2 ^ (exponent + 1) = x / 2 ^ exponent / 2 := by
      rw [zpow_add_one₀ (two_ne_zero' ℚ), div_div]
    have reaches : (2 : ℚ) ^ 53 - 1 / 2 ≤ x / 2 ^ exponent := by
      have := near.low
      rw [carried] at this
      exact_mod_cast this
    refine ⟨2 ^ 52, exponent + 1, ⟨by omega, by omega, by omega, by omega, .inl le_rfl⟩, le_rfl,
      .of_lt ?_ ?_, fun _ _ => ?_⟩
    all_goals
      rw [halved]
      push_cast
      linarith

/-! Quotients -/

theorem IsHalves.div_eq {x y : Float} {m n mantissa : Nat} {exponent : Int}
    (left : IsHalves x m) (right : IsHalves y n) (leftPositive : 0 < m) (rightPositive : 0 < n)
    (canonical : Canonical mantissa exponent) (close : Close mantissa exponent ((m : ℚ) / n)) :
    x / y = double false canonical := by
  obtain ⟨m₁, e₁, canonical₁, rfl, value₁⟩ := left.resolve_left fun zero => leftPositive.ne' zero.1
  obtain ⟨m₂, e₂, canonical₂, rfl, value₂⟩ :=
    right.resolve_left fun zero => rightPositive.ne' zero.1
  apply div_double canonical₁ canonical₂ canonical
  rwa [value₁, value₂, div_div_div_cancel_right₀ two_ne_zero]

section Whole

variable {total count mantissa : Nat} {exponent : Int}

private theorem exactValue?_ofNat_div (positive : 0 < count) (atLeast : count ≤ total)
    (small : total < 2 ^ 52) (canonical : Canonical mantissa exponent) (full : 2 ^ 52 ≤ mantissa)
    (close : Close mantissa exponent ((total : ℚ) / count)) :
    exactValue? (Float.ofNat total / Float.ofNat count) =
      some ((mantissa : ℚ) * 2 ^ exponent) := by
  have numerator : IsHalves (Float.ofNat total) (2 * total) := isHalves_ofNat (by omega)
  have denominator : IsHalves (Float.ofNat count) (2 * count) := isHalves_ofNat (by omega)
  have same : ((2 * total : Nat) : ℚ) / (2 * count : Nat) = total / count := by
    push_cast
    exact mul_div_mul_left _ _ two_ne_zero
  rw [← same] at close
  rw [numerator.div_eq denominator (by omega) (by omega) canonical close,
    exactValue?_double canonical full]

private theorem exists_close_quotient (positive : 0 < count) (atLeast : count ≤ total)
    (small : total < 2 ^ 52) :
    ∃ mantissa exponent, Canonical mantissa exponent ∧ 2 ^ 52 ≤ mantissa ∧
      Close mantissa exponent ((total : ℚ) / count) := by
  have countPositive : (0 : ℚ) < count := by exact_mod_cast positive
  apply exists_close
  · calc (2 : ℚ) ^ (-1022 : Int) ≤ 1 := zpow_le_one_of_nonpos₀ one_le_two (by norm_num)
      _ ≤ total / count := (one_le_div countPositive).mpr (by exact_mod_cast atLeast)
  · calc (total : ℚ) / count ≤ total := div_le_self (by positivity) (by exact_mod_cast positive)
      _ < 2 ^ (52 : Int) := by exact_mod_cast small
      _ ≤ 2 ^ (1023 : Int) := zpow_le_zpow_right₀ one_le_two (by norm_num)

/-- The rounding error is less than the least distance of a quotient from a half that it is not. -/
theorem Close.abs_sub_lt (close : Close mantissa exponent ((total : ℚ) / count))
    (positive : 0 < count) (small : total < 2 ^ 52) (full : 2 ^ 52 ≤ mantissa) :
    |(mantissa : ℚ) * 2 ^ exponent - total / count| < 1 / (2 * count) := by
  have unit : (0 : ℚ) < 2 ^ exponent := by positivity
  have countPositive : (0 : ℚ) < count := by exact_mod_cast positive
  have smallCast : (total : ℚ) + 1 ≤ 2 ^ 52 := by exact_mod_cast small
  have fullCast : (2 : ℚ) ^ 52 ≤ mantissa := by exact_mod_cast full
  have least : ((mantissa : ℚ) - 1 / 2) * 2 ^ exponent ≤ total / count :=
    (le_div_iff₀ unit).mp close.near.low
  have most : (total : ℚ) / count ≤ (mantissa + 1 / 2) * 2 ^ exponent :=
    (div_le_iff₀ unit).mp close.near.high
  have fine : (2 : ℚ) ^ exponent * count < 1 := by
    have scaled : ((mantissa : ℚ) - 1 / 2) * (2 ^ exponent * count) ≤ total := by
      rw [← mul_assoc]
      exact (le_div_iff₀ countPositive).mp least
    have bound : ((mantissa : ℚ) - 1 / 2) * (2 ^ exponent * count) < (mantissa - 1 / 2) * 1 := by
      linarith
    exact lt_of_mul_lt_mul_left bound (by linarith)
  have error : (2 : ℚ) ^ exponent / 2 < 1 / (2 * count) := by
    rw [div_lt_div_iff₀ two_pos (by positivity)]
    linarith
  rw [abs_lt]
  constructor <;> linarith

/-- The quotient of two whole numbers in doubles, rounded to a whole number, a half upwards. -/
def roundedQuotient? (total count : Nat) : Option Nat :=
  (exactValue? (Float.ofNat total / Float.ofNat count)).map fun quotient => ⌊quotient + 1 / 2⌋₊

section Rounded

variable {nearest rest : Nat}

/-- A quotient that is a half above a whole number is a double, and nothing is rounded. -/
theorem roundedQuotient?_of_half (positive : 0 < count) (atLeast : count ≤ total)
    (small : total < 2 ^ 52) (division : 2 * count * nearest = 2 * total + count) :
    roundedQuotient? total count = some nearest := by
  obtain ⟨below, rfl⟩ : ∃ below, nearest = below + 1 := by
    refine Nat.exists_eq_succ_of_ne_zero fun zero => ?_
    rw [zero] at division
    omega
  have odd : (2 * below + 1) * count = 2 * total := by
    rw [Nat.mul_add] at division
    rw [Nat.add_mul, Nat.mul_right_comm]
    omega
  have value : (total : ℚ) / count = (2 * below + 1 : Nat) / 2 := by
    rw [div_eq_div_iff (by exact_mod_cast positive.ne') two_ne_zero, mul_comm]
    exact_mod_cast odd.symm
  have bounded : 2 * below + 1 ≤ 2 * total := odd ▸ Nat.le_mul_of_pos_right _ positive
  obtain ⟨mantissa, exponent, canonical, halves⟩ :=
    exists_canonical_halves (Nat.succ_pos (2 * below)) (by omega : 2 * below + 1 < 2 ^ 53)
  have close : Close mantissa exponent ((total : ℚ) / count) := by
    rw [value, ← halves]
    exact close_self mantissa exponent
  have whole : ((2 * below + 1 : Nat) : ℚ) / 2 + 1 / 2 = (below + 1 : Nat) := by
    push_cast
    ring
  rw [roundedQuotient?,
    exactValue?_ofNat_div positive atLeast small canonical (full_of_value canonical halves) close,
    halves, Option.map_some, whole, Nat.floor_natCast]

/-- Any other quotient is so far from the next halves that it stays between them. -/
theorem roundedQuotient?_of_rest (positive : 0 < count) (atLeast : count ≤ total)
    (small : total < 2 ^ 52) (division : 2 * count * nearest + rest = 2 * total + count)
    (more : 0 < rest) (less : rest < 2 * count) : roundedQuotient? total count = some nearest := by
  have countPositive : (0 : ℚ) < count := by exact_mod_cast positive
  obtain ⟨mantissa, exponent, canonical, full, close⟩ :=
    exists_close_quotient positive atLeast small
  have error := close.abs_sub_lt positive small full
  rw [roundedQuotient?, exactValue?_ofNat_div positive atLeast small canonical full close,
    Option.map_some]
  generalize (mantissa : ℚ) * 2 ^ exponent = quotient at error
  obtain ⟨low, high⟩ := abs_lt.mp error
  have place : (total : ℚ) / count + 1 / 2 = nearest + rest * (1 / (2 * count)) := by
    have cast : 2 * (count : ℚ) * nearest + rest = 2 * total + count := by exact_mod_cast division
    field_simp
    linarith
  have step : (1 : ℚ) / (2 * count) ≤ rest * (1 / (2 * count)) :=
    le_mul_of_one_le_left (by positivity) (by exact_mod_cast more)
  have last : ((rest : ℚ) + 1) * (1 / (2 * count)) ≤ 1 := by
    rw [mul_one_div, div_le_one (by positivity)]
    exact_mod_cast less
  have nonneg : 0 ≤ quotient + 1 / 2 := by
    have : (0 : ℚ) ≤ nearest := by positivity
    linarith
  congr 1
  rw [Nat.floor_eq_iff nonneg]
  constructor <;> linarith

end Rounded

theorem roundedQuotient?_eq (positive : 0 < count) (atLeast : count ≤ total)
    (small : total < 2 ^ 52) :
    roundedQuotient? total count = some ((2 * total + count) / (2 * count)) := by
  have division := Nat.div_add_mod (2 * total + count) (2 * count)
  by_cases whole : (2 * total + count) % (2 * count) = 0
  · rw [whole] at division
    exact roundedQuotient?_of_half positive atLeast small division
  · exact roundedQuotient?_of_rest positive atLeast small division (Nat.pos_of_ne_zero whole)
      (Nat.mod_lt _ (by omega))

end Whole

end SnippetAudit.Decimal
