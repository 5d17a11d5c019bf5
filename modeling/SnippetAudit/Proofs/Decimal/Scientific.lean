import SnippetAudit.Proofs.Decimal.Doubles

/-!
Decimals read as doubles.

A decimal in scientific notation is read as a quotient or product of two doubles if its digits and
its power of ten are doubles themselves, and by exact arithmetic otherwise. Either way, the result
is the double that it is close to.
-/

set_option autoImplicit false

namespace SnippetAudit.Decimal

open Float.Model Float.Model.UnpackedFloat

/-! Numbers that are doubles -/

/-- Numerator and denominator of a reading are those of its value. -/
theorem ratio_eq (value : Dyadic) :
    (value.ratio.1 : ℚ) = value.mantissa * 2 ^ value.exponent * value.ratio.2 := by
  have sum : (value.exponent.toNat : Int) = value.exponent + (-value.exponent).toNat := by omega
  have powers : (2 : ℚ) ^ value.exponent.toNat =
      2 ^ value.exponent * 2 ^ (-value.exponent).toNat := by
    rw [← zpow_natCast, ← zpow_natCast, ← zpow_add₀ (two_ne_zero' ℚ), sum]
  simp only [Dyadic.ratio, Nat.pow_eq]
  push_cast
  rw [powers, mul_assoc]

theorem ratio_den_pos (value : Dyadic) : 0 < value.ratio.2 :=
  Nat.pow_pos two_pos

/-- Whether a double is exactly this number. -/
def isExactly (x : Float) (n : Nat) : Bool :=
  match Reading.ofFloat x with
  | .finite value => !value.negative && value.ratio.1 = n * value.ratio.2
  | _ => false

private theorem exists_double_of_isExactly {x : Float} {n : Nat} (exactly : isExactly x n = true)
    (positive : 0 < n) :
    ∃ mantissa exponent, ∃ canonical : Canonical mantissa exponent,
      x = double false canonical ∧ (mantissa : ℚ) * 2 ^ exponent = n := by
  unfold isExactly at exactly
  split at exactly
  · rename_i value reading
    obtain ⟨sign, ratio⟩ : value.negative = false ∧ value.ratio.1 = n * value.ratio.2 := by
      simpa using exactly
    have den : (0 : ℚ) < value.ratio.2 := by exact_mod_cast ratio_den_pos value
    have same : (value.mantissa : ℚ) * 2 ^ value.exponent = n := by
      have cast : (value.ratio.1 : ℚ) = n * value.ratio.2 := by exact_mod_cast ratio
      rw [ratio_eq] at cast
      exact mul_right_cancel₀ den.ne' cast
    have nonzero : value.mantissa ≠ 0 := by
      intro zero
      have vanishes : (n : ℚ) = 0 := by rw [← same, zero, Nat.cast_zero, zero_mul]
      exact positive.ne' (by exact_mod_cast vanishes)
    obtain ⟨proper, packed⟩ := exists_double reading nonzero
    rw [sign] at packed
    exact ⟨_, _, proper.canonical, packed, same⟩
  · cases exactly

private theorem isExactly_powerOfTen {k : Nat}
    (bound : k < Float.exactlyRepresentablePowersOfTen.size) :
    isExactly Float.exactlyRepresentablePowersOfTen[k] (10 ^ k) = true := by
  have all : ∀ k : Fin 23,
      isExactly Float.exactlyRepresentablePowersOfTen[k] (10 ^ k.val) = true := by
    decide +kernel
  exact all ⟨k, bound⟩

/-- A mantissa with fewer places than a double has is filled up with zeros. -/
theorem canonical_filled {n places : Nat} (positive : 0 < n) (sum : n.log2 + places = 52) :
    Canonical (n * 2 ^ places) (-places) := by
  have low : 2 ^ n.log2 * 2 ^ places ≤ n * 2 ^ places :=
    Nat.mul_le_mul_right _ (Nat.log2_self_le positive.ne')
  have high : n * 2 ^ places < 2 ^ (n.log2 + 1) * 2 ^ places :=
    Nat.mul_lt_mul_of_pos_right Nat.lt_log2_self (Nat.two_pow_pos places)
  have sum' : n.log2 + 1 + places = 53 := by omega
  rw [← Nat.pow_add, sum] at low
  rw [← Nat.pow_add, sum'] at high
  exact ⟨by omega, high, by omega, by omega, .inl low⟩

private theorem normalize_filled {n places : Nat} (positive : 0 < n) (sum : n.log2 + places = 52) :
    UnpackedFloat.normalize Format.binary64 n 0 .positive =
      .finite .positive (n * 2 ^ places) (-places) (canonical_filled positive sum).positive := by
  have greater : compare (n : Int) 0 = .gt := compare_gt_iff_gt.mpr (by omega)
  have target : max ((n.log2 : Int) + 0 - 52) (-1074) = -places := by omega
  simp only [UnpackedFloat.normalize, greater, Int.toNat_natCast, UnpackedFloat.round,
    targetExponent_total, target, decreaseExponent, zero_sub, neg_neg, Nat.shiftLeft_eq]
  have canonical := canonical_filled positive sum
  have long : 52 ≤ (n * 2 ^ places).log2 :=
    (Nat.le_log2 canonical.positive.ne').mpr (canonical.full.resolve_right (by omega))
  exact roundWithAccuracy_eq .positive (marks_exact _) (by omega) canonical (close_self _ _)

/-- Up to 53 bits, a whole number is a double. -/
theorem exists_double_toFloat {n : Nat} (positive : 0 < n) (small : n < 2 ^ 53) :
    ∃ mantissa exponent, ∃ canonical : Canonical mantissa exponent,
      n.toUInt64.toFloat = double false canonical ∧ 2 ^ 52 ≤ mantissa ∧
        (mantissa : ℚ) * 2 ^ exponent = n := by
  have short : n.log2 < 53 := (Nat.log2_lt positive.ne').mpr small
  obtain ⟨places, sum⟩ : ∃ places : Nat, n.log2 + places = 52 := ⟨52 - n.log2, by omega⟩
  have canonical := canonical_filled positive sum
  refine ⟨_, _, canonical, ?_, canonical.full.resolve_right (by omega), ?_⟩
  · change Float.ofModel (.pack (UnpackedFloat.normalize Format.binary64 (n.toUInt64.toNat : Int) 0
      .positive)) = _
    have same : n.toUInt64.toNat = n := by
      rw [UInt64.toNat_ofNat']
      omega
    rw [same, normalize_filled positive sum]
    rfl
  · rw [zpow_neg, zpow_natCast]
    push_cast
    field_simp

/-! Arithmetic -/

theorem mul_double {mantissa₁ mantissa₂ mantissa : Nat} {exponent₁ exponent₂ exponent : Int}
    (canonical₁ : Canonical mantissa₁ exponent₁) (canonical₂ : Canonical mantissa₂ exponent₂)
    (canonical : Canonical mantissa exponent) (full : 2 ^ 52 ≤ mantissa₁)
    (close : Close mantissa exponent
      (mantissa₁ * 2 ^ exponent₁ * (mantissa₂ * 2 ^ exponent₂))) :
    double false canonical₁ * double false canonical₂ = double false canonical := by
  change Float.ofModel (.pack (mul Format.binary64 (double false canonical₁).toModel.unpack
    (double false canonical₂).toModel.unpack)) = _
  have places : 2 ^ 52 ≤ mantissa₁ * mantissa₂ :=
    full.trans (Nat.le_mul_of_pos_right _ canonical₂.positive)
  rw [unpack_double, unpack_double]
  exact congrArg (Float.ofModel ∘ Float.Model.pack)
    (mul_finite canonical₁.positive canonical₂.positive places canonical close)

theorem div_double {mantissa₁ mantissa₂ mantissa : Nat} {exponent₁ exponent₂ exponent : Int}
    (canonical₁ : Canonical mantissa₁ exponent₁) (canonical₂ : Canonical mantissa₂ exponent₂)
    (canonical : Canonical mantissa exponent)
    (close : Close mantissa exponent
      (mantissa₁ * 2 ^ exponent₁ / (mantissa₂ * 2 ^ exponent₂))) :
    double false canonical₁ / double false canonical₂ = double false canonical := by
  change Float.ofModel (.pack (UnpackedFloat.div Format.binary64
    (double false canonical₁).toModel.unpack (double false canonical₂).toModel.unpack)) = _
  rw [unpack_double, unpack_double]
  exact congrArg (Float.ofModel ∘ Float.Model.pack)
    (div_finite canonical₁.positive canonical₂.positive canonical close)

/-! Range -/

/-- What is close to a double is in the range of doubles. -/
theorem Close.range {mantissa : Nat} {exponent : Int} {x : ℚ} (close : Close mantissa exponent x)
    (canonical : Canonical mantissa exponent) : 2 ^ (-1075 : Int) ≤ x ∧ x < 2 ^ (1024 : Int) := by
  have unit : (0 : ℚ) < 2 ^ exponent := by positivity
  have positive : (1 : ℚ) ≤ mantissa := by exact_mod_cast canonical.positive
  have fits : (mantissa : ℚ) + 1 ≤ 2 ^ 53 := by exact_mod_cast canonical.fits
  constructor
  · calc (2 : ℚ) ^ (-1 + -1074 : Int) = 1 / 2 * 2 ^ (-1074 : Int) := by
          rw [zpow_add₀ (two_ne_zero' ℚ), zpow_neg_one, one_div]
      _ ≤ 1 / 2 * 2 ^ exponent := by gcongr; exacts [one_le_two, canonical.lowest]
      _ ≤ x := by
          rw [← le_div_iff₀ unit]
          linarith [close.near.low]
  · calc x < 2 ^ 53 * 2 ^ exponent := by
          rw [← div_lt_iff₀ unit]
          linarith [close.near.high]
      _ ≤ 2 ^ 53 * 2 ^ (971 : Int) := by gcongr; exacts [one_le_two, canonical.highest]
      _ = 2 ^ (53 + 971 : Int) := (zpow_add₀ (two_ne_zero' ℚ) 53 971).symm

theorem Close.digits_pos {digits mantissa : Nat} {power exponent : Int}
    (close : Close mantissa exponent (digits * 10 ^ power))
    (canonical : Canonical mantissa exponent) : 0 < digits := by
  apply Nat.pos_of_ne_zero
  rintro rfl
  have low := (close.range canonical).1
  rw [Nat.cast_zero, zero_mul] at low
  exact absurd low (not_le.mpr (by positivity))

/-! Places -/

theorem lt_pow_digitCount (n : Nat) : n < 10 ^ digitCount n := by
  unfold digitCount
  split
  · omega
  · exact (Nat.length_toDigits_le_iff (by decide) Nat.length_toDigits_pos).mp le_rfl

theorem pow_digitCount_le {n : Nat} (positive : 0 < n) : 10 ^ digitCount n ≤ 10 * n := by
  unfold digitCount
  rw [if_neg positive.ne']
  generalize counted : (Nat.toDigits 10 n).length = count
  match count with
  | 0 => exact absurd counted Nat.length_toDigits_pos.ne'
  | 1 => omega
  | count + 2 =>
      have long : ¬ (Nat.toDigits 10 n).length ≤ count + 1 := by omega
      rw [Nat.length_toDigits_le_iff (by decide) (by omega)] at long
      rw [Nat.pow_succ]
      omega

private theorem digitCount_le (n : Nat) : digitCount n ≤ n.log2 + 1 := by
  unfold digitCount
  split
  · omega
  · rw [Nat.length_toDigits_le_iff (by decide) (by omega)]
    calc n < 2 ^ (n.log2 + 1) := Nat.lt_log2_self
      _ ≤ 10 ^ (n.log2 + 1) := Nat.pow_le_pow_left (by decide) _

private theorem two_pow_le_ten_pow (n : Nat) : (2 : ℚ) ^ (3 * n) ≤ 10 ^ n := by
  rw [pow_mul]
  gcongr
  norm_num

private theorem le_places {digits : Nat} {power : Int}
    (low : (2 : ℚ) ^ (-1075 : Int) ≤ digits * 10 ^ power) : -358 ≤ power + digitCount digits := by
  by_contra far
  obtain ⟨n, sum⟩ : ∃ n : Nat, power + digitCount digits = -n :=
    ⟨(-(power + digitCount digits)).toNat, by omega⟩
  have below : (digits : ℚ) < 10 ^ digitCount digits := by exact_mod_cast lt_pow_digitCount digits
  have small : digits * (10 : ℚ) ^ power < 2 ^ (-1075 : Int) := by
    calc digits * (10 : ℚ) ^ power < 10 ^ digitCount digits * 10 ^ power := by gcongr
      _ = (10 ^ n)⁻¹ := by
          rw [← zpow_natCast, ← zpow_natCast, ← zpow_neg, ← zpow_add₀ (by norm_num), ← sum,
            add_comm]
      _ ≤ (2 ^ (3 * n))⁻¹ := inv_anti₀ (by positivity) (two_pow_le_ten_pow n)
      _ = 2 ^ (-(3 * n : Nat) : Int) := by rw [zpow_neg, zpow_natCast]
      _ ≤ 2 ^ (-1075 : Int) := zpow_le_zpow_right₀ one_le_two (by push_cast; omega)
  linarith

private theorem places_le {digits : Nat} {power : Int} (positive : 0 < digits)
    (high : digits * 10 ^ power < (2 : ℚ) ^ (1024 : Int)) : power + digitCount digits ≤ 342 := by
  by_contra far
  obtain ⟨n, sum⟩ : ∃ n : Nat, power + digitCount digits = n + 1 :=
    ⟨(power + digitCount digits - 1).toNat, by omega⟩
  have above : (10 : ℚ) ^ digitCount digits ≤ 10 * digits := by
    exact_mod_cast pow_digitCount_le positive
  have large : (2 : ℚ) ^ (1024 : Int) ≤ digits * 10 ^ power := by
    calc (2 : ℚ) ^ (1024 : Int) ≤ 2 ^ ((3 * n : Nat) : Int) :=
          zpow_le_zpow_right₀ one_le_two (by push_cast; omega)
      _ ≤ 10 ^ n := by rw [zpow_natCast]; exact two_pow_le_ten_pow n
      _ = 10 ^ digitCount digits * 10 ^ power / 10 := by
          rw [← zpow_natCast, ← zpow_natCast, ← zpow_add₀ (by norm_num), add_comm _ power, sum,
            zpow_add_one₀ (by norm_num)]
          field_simp
      _ ≤ digits * 10 ^ power := by
          have step : (0 : ℚ) < 10 ^ power := by positivity
          have := mul_le_mul_of_nonneg_right above step.le
          linarith
  linarith

/-- A decimal that is close to a double starts no more than some hundreds of places before or behind
the point. -/
theorem Close.places {digits mantissa : Nat} {power exponent : Int}
    (close : Close mantissa exponent (digits * 10 ^ power))
    (canonical : Canonical mantissa exponent) :
    -358 ≤ power + digitCount digits ∧ power + digitCount digits ≤ 342 := by
  obtain ⟨low, high⟩ := close.range canonical
  exact ⟨le_places low, places_le (close.digits_pos canonical) high⟩

/-! Scientific notation -/

private theorem ten_zpow_of_nonneg {power : Int} (whole : 0 ≤ power) :
    (10 : ℚ) ^ power = (10 ^ power.natAbs : Nat) := by
  have same : (power.natAbs : Int) = power := by omega
  rw [Nat.cast_pow, ← zpow_natCast, same]
  norm_num

private theorem ten_zpow_of_neg {power : Int} (fractional : power < 0) :
    (10 : ℚ) ^ power = ((10 ^ power.natAbs : Nat) : ℚ)⁻¹ := by
  have same : (power.natAbs : Int) = -power := by omega
  rw [Nat.cast_pow, ← zpow_natCast, same, zpow_neg, inv_inv]
  norm_num

/-- Exact arithmetic reads a decimal as the double that it is close to. -/
theorem unpacked_ofScientific {digits mantissa : Nat} {power exponent : Int}
    (canonical : Canonical mantissa exponent)
    (close : Close mantissa exponent (digits * 10 ^ power)) :
    UnpackedFloat.ofScientific Format.binary64 digits power =
      .finite .positive mantissa exponent canonical.positive := by
  have positive := close.digits_pos canonical
  obtain ⟨notSmall, notLarge⟩ := close.places canonical
  have short := digitCount_le digits
  unfold UnpackedFloat.ofScientific
  rw [dif_neg positive.ne', if_neg (by norm_num; omega), if_neg (by norm_num; omega)]
  split
  · rename_i whole
    have natural : power.toNat = power.natAbs := by omega
    have shifted : digits <<< Format.binary64.mantissaBits = digits * 2 ^ 53 := Nat.shiftLeft_eq ..
    have places : 2 ^ 52 ≤ digits * 2 ^ 53 * 10 ^ power.natAbs := by
      have := Nat.pow_pos (by decide : 0 < 10) (n := power.natAbs)
      nlinarith
    have value : ((digits * 2 ^ 53 : Nat) : ℚ) * 2 ^ (-53 : Int) *
        ((10 ^ power.natAbs : Nat) * 2 ^ (0 : Int)) = digits * 10 ^ power := by
      rw [ten_zpow_of_nonneg whole]
      push_cast
      field_simp
      norm_num
    simp only [natural, shifted]
    rw [← value] at close
    exact mul_finite _ _ places canonical close
  · rename_i fractional
    have natural : (-power).toNat = power.natAbs := by omega
    have value : (digits : ℚ) * 2 ^ (0 : Int) / ((10 ^ power.natAbs : Nat) * 2 ^ (0 : Int)) =
        digits * 10 ^ power := by
      rw [ten_zpow_of_neg (by omega)]
      simp [div_eq_mul_inv]
    simp only [natural]
    rw [← value] at close
    exact div_finite _ _ canonical close

/-- A decimal is read as the double that it is close to. -/
theorem ofScientific_eq {digits mantissa : Nat} {power exponent : Int}
    (canonical : Canonical mantissa exponent)
    (close : Close mantissa exponent (digits * 10 ^ power)) :
    Float.ofScientific digits (power < 0) power.natAbs = double false canonical := by
  have positive := close.digits_pos canonical
  unfold Float.ofScientific
  split
  · rename_i small
    obtain ⟨mantissa₁, exponent₁, canonical₁, digits_eq, full, value₁⟩ :=
      exists_double_toFloat positive small.1
    have bound : power.natAbs < Float.exactlyRepresentablePowersOfTen.size :=
      Nat.lt_succ_of_le small.2
    obtain ⟨mantissa₂, exponent₂, canonical₂, power_eq, value₂⟩ :=
      exists_double_of_isExactly (isExactly_powerOfTen bound) (by positivity)
    simp only [digits_eq, power_eq, decide_eq_true_eq]
    split
    · rename_i fractional
      apply div_double
      rw [value₁, value₂, div_eq_mul_inv, ← ten_zpow_of_neg fractional]
      exact close
    · rename_i whole
      apply mul_double _ _ _ full
      rw [value₁, value₂, ← ten_zpow_of_nonneg (by omega)]
      exact close
  · have signed : (if decide (power < 0) = true then Int.negOfNat power.natAbs
        else Int.ofNat power.natAbs) = power := by
      simp only [decide_eq_true_eq, Int.negOfNat_eq, Int.ofNat_eq_natCast]
      split <;> omega
    simp only [signed]
    exact congrArg (Float.ofModel ∘ Float.Model.pack) (unpacked_ofScientific canonical close)

end SnippetAudit.Decimal
