import SnippetAudit.Decimal.Shortest
import SnippetAudit.Proofs.Decimal.Scientific

/-!
The shortest decimal of a double is close to it.

Whether a decimal rounds to a double is decided in whole numbers; that agrees with the interval of
rationals. With seventeen digits the nearest decimal is always in the interval, so that the search
for the shortest one ends with a decimal that is.
-/

set_option autoImplicit false

namespace SnippetAudit.Decimal

open Float.Model.UnpackedFloat

/-! Powers of ten -/

theorem powerRatio_eq (power : Int) :
    ((powerRatio power).1 : ℚ) = 10 ^ power * (powerRatio power).2 := by
  have sum : (power.toNat : Int) = power + (-power).toNat := by omega
  simp only [powerRatio, Nat.pow_eq]
  push_cast
  rw [← zpow_natCast, ← zpow_natCast, ← zpow_add₀ (by norm_num), sum]

private theorem powerRatio_den_pos (power : Int) : 0 < (powerRatio power).2 :=
  Nat.pow_pos (by decide)

private theorem powerRatio_num_pos (power : Int) : 0 < (powerRatio power).1 :=
  Nat.pow_pos (by decide)

/-- The leading power of ten of a quotient is not above it. -/
theorem ten_zpow_leadingPower_le {num den : Nat} (positive : 0 < num) (denPositive : 0 < den) :
    (10 : ℚ) ^ leadingPower num den ≤ num / den := by
  unfold leadingPower
  split
  · rename_i large
    have bound : (10 : ℚ) ^ digitCount (num / den) ≤ 10 * (num / den : Nat) := by
      exact_mod_cast pow_digitCount_le (Nat.div_pos large denPositive)
    calc (10 : ℚ) ^ ((digitCount (num / den) : Int) - 1) = 10 ^ digitCount (num / den) / 10 := by
          rw [zpow_sub_one₀ (by norm_num), zpow_natCast, div_eq_mul_inv]
      _ ≤ (num / den : Nat) := by linarith
      _ ≤ num / den := Nat.cast_div_le
  · have bound := (Nat.div_lt_iff_lt_mul positive).mp (lt_pow_digitCount ((den - 1) / num))
    have enough : (den : ℚ) ≤ 10 ^ digitCount ((den - 1) / num) * num := by
      exact_mod_cast (by omega : den ≤ 10 ^ digitCount ((den - 1) / num) * num)
    have cast : (0 : ℚ) < den := by exact_mod_cast denPositive
    rw [zpow_neg, zpow_natCast, inv_le_iff_one_le_mul₀ (by positivity), div_mul_eq_mul_div,
      one_le_div cast, mul_comm]
    exact enough

/-- A quotient is rounded to the nearest whole number. -/
theorem near_roundDiv (num : Nat) {den : Nat} (positive : 0 < den) :
    Near (roundDiv num den) ((num : ℚ) / den) := by
  have same : roundDiv num den = (ExtendedMantissa.ofMantissaAndAccuracy (num / den)
      (accuracyOfFraction (num % den) den)).roundedMantissa := by
    unfold roundDiv accuracyOfFraction
    rcases lt_trichotomy (2 * (num % den)) den with less | equal | greater
    · have order : compare (2 * (num % den)) den = .lt := compare_lt_iff_lt.mpr less
      simp only [less, ↓reduceIte, order]
      split <;> rfl
    · have order : compare (2 * (num % den)) den = .eq := compare_eq_iff_eq.mpr equal
      have nonzero : num % den ≠ 0 := by omega
      simp only [equal.not_lt, equal.not_gt, ↓reduceIte, order, nonzero]
      change _ = num / den + num / den % 2
      split <;> omega
    · have order : compare (2 * (num % den)) den = .gt := compare_gt_iff_gt.mpr greater
      have nonzero : num % den ≠ 0 := by omega
      simp only [greater, greater.not_gt, ↓reduceIte, order, nonzero]
      rfl
  rw [same]
  exact (marks_quotient num positive).near

/-! The interval in whole numbers -/

/-- A quarter of the last place of a double. -/
def quarter (value : Dyadic) : Dyadic :=
  { value with mantissa := 1, exponent := value.exponent - 2 }

/-- A decimal in quarters of the last place. -/
theorem point_eq (value : Dyadic) (candidate : Scaled) :
    ((candidate.digits * (powerRatio candidate.power).1 * (quarter value).ratio.2 : Nat) : ℚ) =
      4 * (candidate.digits * 10 ^ candidate.power / 2 ^ value.exponent) *
        ((quarter value).ratio.1 * (powerRatio candidate.power).2 : Nat) := by
  have unit : (2 : ℚ) ^ value.exponent ≠ 0 := by positivity
  push_cast
  rw [powerRatio_eq, ratio_eq]
  simp only [quarter, Nat.cast_one, one_mul]
  rw [sub_eq_add_neg, zpow_add₀ (two_ne_zero' ℚ)]
  field_simp
  norm_num

/-- The bounds that are compared, as rationals. -/
theorem roundsTo_eq_true_iff {value : Dyadic} (positive : 0 < value.mantissa)
    (candidate : Scaled) {y : ℚ}
    (place : y = candidate.digits * 10 ^ candidate.power / 2 ^ value.exponent) :
    roundsTo value candidate = true ↔
      if value.mantissa % 2 = 0 then
        (value.mantissa : ℚ) - (if value.isLowest then 1 / 4 else 1 / 2) ≤ y ∧
          y ≤ value.mantissa + 1 / 2
      else
        (value.mantissa : ℚ) - (if value.isLowest then 1 / 4 else 1 / 2) < y ∧
          y < value.mantissa + 1 / 2 := by
  have point := point_eq value candidate
  have unitPositive : 0 < (quarter value).ratio.1 * (powerRatio candidate.power).2 :=
    Nat.mul_pos (Nat.mul_pos one_pos (Nat.pow_pos two_pos)) (powerRatio_den_pos _)
  rw [← place] at point
  have unfolded : roundsTo value candidate =
      let point := candidate.digits * (powerRatio candidate.power).1 * (quarter value).ratio.2
      let unit := (quarter value).ratio.1 * (powerRatio candidate.power).2
      let low := (4 * value.mantissa - if value.isLowest then 1 else 2) * unit
      let high := (4 * value.mantissa + 2) * unit
      if value.mantissa % 2 = 0 then low ≤ point && point ≤ high
      else low < point && point < high := rfl
  rw [unfolded]
  generalize candidate.digits * (powerRatio candidate.power).1 * (quarter value).ratio.2 = p at *
  generalize (quarter value).ratio.1 * (powerRatio candidate.power).2 = u at *
  have unit : (0 : ℚ) < u := by exact_mod_cast unitPositive
  have le_point : ∀ k : Nat, k * u ≤ p ↔ (k : ℚ) ≤ 4 * y := by
    intro k
    rw [← @Nat.cast_le ℚ, point, Nat.cast_mul, mul_le_mul_iff_left₀ unit]
  have point_le : ∀ k : Nat, p ≤ k * u ↔ 4 * y ≤ k := by
    intro k
    rw [← @Nat.cast_le ℚ, point, Nat.cast_mul, mul_le_mul_iff_left₀ unit]
  have low : ((4 * value.mantissa - (if value.isLowest then 1 else 2) : Nat) : ℚ) =
      4 * (value.mantissa - (if value.isLowest then 1 / 4 else 1 / 2)) := by
    rw [Nat.cast_sub (by split <;> omega)]
    push_cast
    split <;> ring
  have high : ((4 * value.mantissa + 2 : Nat) : ℚ) = 4 * (value.mantissa + 1 / 2) := by
    push_cast
    ring
  have four : (0 : ℚ) < 4 := by norm_num
  by_cases even : value.mantissa % 2 = 0
  · simp only [even, ↓reduceIte, Bool.and_eq_true, decide_eq_true_eq, le_point, point_le, low, high,
      mul_le_mul_iff_right₀ four]
  · simp only [even, ↓reduceIte, Bool.and_eq_true, decide_eq_true_eq, ← not_le, le_point, point_le,
      low, high, mul_le_mul_iff_right₀ four]

/-- The test in whole numbers tells what is close to a double. -/
theorem roundsTo_iff {value : Dyadic} (proper : value.Proper) (candidate : Scaled) :
    roundsTo value candidate = true ↔
      Close value.mantissa value.exponent (candidate.digits * 10 ^ candidate.power) := by
  obtain ⟨canonical, lowest⟩ := proper
  rw [roundsTo_eq_true_iff canonical.positive candidate rfl]
  generalize (candidate.digits : ℚ) * 10 ^ candidate.power = x
  by_cases isLowest : value.isLowest = true
  · obtain ⟨exactly, normal⟩ := lowest.mp isLowest
    have even : value.mantissa % 2 = 0 := by omega
    simp only [isLowest, even, ↓reduceIte]
    constructor
    · rintro ⟨low, high⟩
      exact ⟨⟨by linarith, high, fun _ => even⟩, fun _ _ => low⟩
    · intro close
      exact ⟨close.finer exactly normal, close.near.high⟩
  · have coarse : value.mantissa = 2 ^ 52 → value.exponent ≠ -1074 →
        (value.mantissa : ℚ) - 1 / 4 ≤ x / 2 ^ value.exponent :=
      fun exactly normal => absurd (lowest.mpr ⟨exactly, normal⟩) isLowest
    by_cases even : value.mantissa % 2 = 0
    · simp only [isLowest, even, ↓reduceIte]
      constructor
      · rintro ⟨low, high⟩
        exact ⟨⟨low, high, fun _ => even⟩, coarse⟩
      · intro close
        exact ⟨close.near.low, close.near.high⟩
    · simp only [isLowest, even, ↓reduceIte]
      constructor
      · rintro ⟨low, high⟩
        exact ⟨.of_lt low high, coarse⟩
      · intro close
        exact ⟨lt_of_le_of_ne close.near.low fun same => even (close.near.tie (.inl same.symm)),
          lt_of_le_of_ne close.near.high fun same => even (close.near.tie (.inr same))⟩

/-! The search -/

private theorem roundsTo_of_onGrid? {value : Dyadic} {count : Nat} {scaled : Scaled}
    (found : onGrid? value count = some scaled) : roundsTo value scaled = true := by
  simp only [onGrid?] at found
  split at found
  · cases found
    assumption
  · split at found
    · cases found
      assumption
    · split at found
      · cases found
        assumption
      · cases found

/-- The decimal with seventeen digits that is nearest to a double. -/
def nearestOf (value : Dyadic) : Scaled :=
  let power := leadingPower value.ratio.1 value.ratio.2 - 16
  { digits := roundDiv (value.ratio.1 * (powerRatio power).2) (value.ratio.2 * (powerRatio power).1)
    power }

private theorem onGrid?_of_nearestOf {value : Dyadic}
    (close : roundsTo value (nearestOf value) = true) :
    onGrid? value 17 = some (nearestOf value) := by
  have power : leadingPower value.ratio.1 value.ratio.2 - (17 : Nat) + 1 =
      leadingPower value.ratio.1 value.ratio.2 - 16 := by omega
  simp only [onGrid?, power]
  exact if_pos close

private theorem value_eq (value : Dyadic) :
    (value.ratio.1 : ℚ) / value.ratio.2 = value.mantissa * 2 ^ value.exponent := by
  have den : (value.ratio.2 : ℚ) ≠ 0 := by exact_mod_cast (ratio_den_pos value).ne'
  rw [ratio_eq, mul_div_cancel_right₀ _ den]

private theorem near_nearestOf (value : Dyadic) :
    Near (nearestOf value).digits
      (value.mantissa * 2 ^ value.exponent / 10 ^ (nearestOf value).power) := by
  have denPositive := ratio_den_pos value
  have upPositive := powerRatio_num_pos (nearestOf value).power
  have downPositive := powerRatio_den_pos (nearestOf value).power
  have near := near_roundDiv (value.ratio.1 * (powerRatio (nearestOf value).power).2)
    (Nat.mul_pos denPositive upPositive)
  have quotient : ((value.ratio.1 * (powerRatio (nearestOf value).power).2 : Nat) : ℚ) /
      (value.ratio.2 * (powerRatio (nearestOf value).power).1 : Nat) =
        value.mantissa * 2 ^ value.exponent / 10 ^ (nearestOf value).power := by
    have den : (value.ratio.2 : ℚ) ≠ 0 := by exact_mod_cast denPositive.ne'
    have down : ((powerRatio (nearestOf value).power).2 : ℚ) ≠ 0 := by
      exact_mod_cast downPositive.ne'
    push_cast
    rw [ratio_eq, powerRatio_eq]
    field_simp
  rw [quotient] at near
  exact near

/-- The last of seventeen digits counts for at most one part in `10 ^ 16` of the double. -/
theorem step_nearestOf_le {value : Dyadic} (positive : 0 < value.mantissa) :
    (10 : ℚ) ^ (nearestOf value).power * 10 ^ 16 ≤ value.mantissa * 2 ^ value.exponent := by
  have numPositive : 0 < value.ratio.1 := Nat.mul_pos positive (Nat.pow_pos two_pos)
  have leading := ten_zpow_leadingPower_le numPositive (ratio_den_pos value)
  have power : (nearestOf value).power + (16 : Nat) = leadingPower value.ratio.1 value.ratio.2 :=
    sub_add_cancel _ _
  rw [← value_eq, ← zpow_natCast, ← zpow_add₀ (by norm_num), power]
  exact leading

/-- Seventeen digits are enough. -/
theorem close_nearestOf {value : Dyadic} (canonical : Canonical value.mantissa value.exponent) :
    Close value.mantissa value.exponent
      ((nearestOf value).digits * 10 ^ (nearestOf value).power) := by
  have unit : (0 : ℚ) < 2 ^ value.exponent := by positivity
  have step : (0 : ℚ) < 10 ^ (nearestOf value).power := by positivity
  have fine := step_nearestOf_le canonical.positive
  obtain ⟨least, most, _⟩ := near_nearestOf value
  rw [le_div_iff₀ step] at least
  rw [div_le_iff₀ step] at most
  -- In units of the last place, the decimal is off by less than a quarter of `mantissa / 2 ^ 52`.
  have low : value.mantissa * (1 - 1 / (2 * 10 ^ 16)) ≤
      (nearestOf value).digits * (10 : ℚ) ^ (nearestOf value).power / 2 ^ value.exponent := by
    rw [le_div_iff₀ unit]
    linarith
  have high : (nearestOf value).digits * (10 : ℚ) ^ (nearestOf value).power / 2 ^ value.exponent ≤
      value.mantissa * (1 + 1 / (2 * 10 ^ 16)) := by
    rw [div_le_iff₀ unit]
    linarith
  have fits : (value.mantissa : ℚ) < 2 ^ 53 := by exact_mod_cast canonical.fits
  refine ⟨.of_lt ?_ ?_, fun exactly _ => ?_⟩
  · linarith
  · linarith
  · have lowest : (value.mantissa : ℚ) = 2 ^ 52 := by exact_mod_cast exactly
    linarith

/-- Dropping zeros does not change a decimal. -/
theorem strip_value (scaled : Scaled) (budget : Nat) :
    ((scaled.strip budget).digits : ℚ) * 10 ^ (scaled.strip budget).power =
      scaled.digits * 10 ^ scaled.power := by
  induction budget generalizing scaled with
  | zero => rfl
  | succ budget ih =>
      unfold Scaled.strip
      split
      · rename_i trailing
        have tenfold : scaled.digits = 10 * (scaled.digits / 10) := by
          simp at trailing
          omega
        have cast : (scaled.digits : ℚ) = 10 * (scaled.digits / 10 : Nat) := by
          exact_mod_cast tenfold
        rw [ih, zpow_add_one₀ (by norm_num), cast]
        ring
      · rfl

/-- The shortest decimal of a double is close to it. -/
theorem close_shortest {value : Dyadic} (proper : value.Proper) :
    Close value.mantissa value.exponent
      ((shortest value).digits * 10 ^ (shortest value).power) := by
  have seventeen := onGrid?_of_nearestOf
    ((roundsTo_iff proper _).mpr (close_nearestOf proper.canonical))
  unfold shortest
  split
  · rename_i scaled found
    obtain ⟨k, _, hit⟩ := List.exists_of_findSome?_eq_some found
    rw [strip_value]
    exact (roundsTo_iff proper scaled).mp (roundsTo_of_onGrid? hit)
  · rename_i missing
    have refused := List.findSome?_eq_none_iff.mp missing 16 (by decide)
    rw [seventeen] at refused
    cases refused

end SnippetAudit.Decimal
