import SnippetAudit.Proofs.Decimal.Scientific

/-!
Whole and half numbers as doubles.

Below 2 ^ 52 such numbers are doubles, and adding and multiplying them as doubles loses nothing.
-/

set_option autoImplicit false

namespace SnippetAudit.Decimal

open Float.Model Float.Model.UnpackedFloat

/-- The rational number that a double is, unless it is infinite or no number. -/
def exactValue? (x : Float) : Option ℚ :=
  match Reading.ofFloat x with
  | .finite value =>
      some ((if value.negative then -1 else 1) * (value.mantissa * 2 ^ value.exponent))
  | _ => none

/-! Sums -/

private theorem log2_shiftLeft {n places : Nat} (positive : 0 < n) :
    (n <<< places).log2 = n.log2 + places := by
  have shifted : n <<< places ≠ 0 := by
    rw [Nat.shiftLeft_eq]
    positivity
  rw [Nat.log2_eq_iff shifted, Nat.shiftLeft_eq]
  constructor
  · rw [Nat.pow_add]
    exact Nat.mul_le_mul_right _ (Nat.log2_self_le positive.ne')
  · rw [Nat.add_right_comm, Nat.pow_add]
    exact Nat.mul_lt_mul_of_pos_right Nat.lt_log2_self (Nat.two_pow_pos places)

/-- Shifting the mantissa up and the exponent down leaves the number as it is. -/
theorem shiftLeft_mul_zpow (n places : Nat) (e : Int) :
    ((n <<< places : Nat) : ℚ) * 2 ^ (e - places) = n * 2 ^ e := by
  rw [Nat.shiftLeft_eq, zpow_sub₀ (two_ne_zero' ℚ), zpow_natCast]
  push_cast
  field_simp

/-- A number with any exponent becomes the double that it is close to. -/
theorem round_eq {n mantissa : Nat} {e exponent : Int} (sign : Sign) (positive : 0 < n)
    (canonical : Canonical mantissa exponent) (close : Close mantissa exponent (n * 2 ^ e)) :
    UnpackedFloat.round Format.binary64 sign n e =
      .finite sign mantissa exponent canonical.positive := by
  simp only [UnpackedFloat.round, targetExponent_total, decreaseExponent]
  generalize targetIs : max ((n.log2 : Int) + e - 52) (-1074) = target
  apply roundWithAccuracy_eq sign (marks_exact _) _ canonical
  · rwa [shiftLeft_mul_zpow]
  · rw [log2_shiftLeft positive]
    push_cast
    omega

private theorem add_finite {n₁ n₂ mantissa : Nat} {e₁ e₂ exponent : Int} (positive₁ : 0 < n₁)
    (positive₂ : 0 < n₂) (canonical : Canonical mantissa exponent)
    (close : Close mantissa exponent (n₁ * 2 ^ e₁ + n₂ * 2 ^ e₂)) :
    UnpackedFloat.add Format.binary64 (.finite .positive n₁ e₁ positive₁)
        (.finite .positive n₂ e₂ positive₂) =
      .finite .positive mantissa exponent canonical.positive := by
  simp only [UnpackedFloat.add, decreaseExponent]
  generalize lowerIs : min e₁ e₂ = lower
  generalize shift₁ : (e₁ - lower).toNat = places₁
  generalize shift₂ : (e₂ - lower).toNat = places₂
  have sum : ((n₁ <<< places₁ + n₂ <<< places₂ : Nat) : ℚ) * 2 ^ lower =
      n₁ * 2 ^ e₁ + n₂ * 2 ^ e₂ := by
    have first := shiftLeft_mul_zpow n₁ places₁ e₁
    have second := shiftLeft_mul_zpow n₂ places₂ e₂
    rw [show e₁ - places₁ = lower by omega] at first
    rw [show e₂ - places₂ = lower by omega] at second
    rw [← first, ← second]
    push_cast
    ring
  have positive : 0 < n₁ <<< places₁ + n₂ <<< places₂ := by
    rw [Nat.shiftLeft_eq, Nat.shiftLeft_eq]
    positivity
  have whole : Sign.positive.apply (n₁ <<< places₁) + Sign.positive.apply (n₂ <<< places₂) =
      ((n₁ <<< places₁ + n₂ <<< places₂ : Nat) : Int) := rfl
  have greater : compare ((n₁ <<< places₁ + n₂ <<< places₂ : Nat) : Int) 0 = .gt :=
    compare_gt_iff_gt.mpr (by omega)
  rw [← sum] at close
  simp only [whole, UnpackedFloat.normalize, greater, Int.toNat_natCast]
  exact round_eq .positive positive canonical close

private theorem add_double {mantissa₁ mantissa₂ mantissa : Nat} {exponent₁ exponent₂ exponent : Int}
    (canonical₁ : Canonical mantissa₁ exponent₁) (canonical₂ : Canonical mantissa₂ exponent₂)
    (canonical : Canonical mantissa exponent)
    (close : Close mantissa exponent
      (mantissa₁ * 2 ^ exponent₁ + mantissa₂ * 2 ^ exponent₂)) :
    double false canonical₁ + double false canonical₂ = double false canonical := by
  change Float.ofModel (.pack (UnpackedFloat.add Format.binary64
    (double false canonical₁).toModel.unpack (double false canonical₂).toModel.unpack)) = _
  rw [unpack_double, unpack_double]
  exact congrArg (Float.ofModel ∘ Float.Model.pack)
    (add_finite canonical₁.positive canonical₂.positive canonical close)

/-! Zero -/

theorem pack_zero : Float.ofModel (.pack (.zero .positive)) = 0.0 := by
  decide +kernel

theorem unpack_zero : (0.0 : Float).toModel.unpack = .zero .positive := by
  rw [← pack_zero]
  rfl

section Zero

variable {mantissa : Nat} {exponent : Int} (canonical : Canonical mantissa exponent)

private theorem zero_add_double : 0.0 + double false canonical = double false canonical := by
  change Float.ofModel (.pack (UnpackedFloat.add Format.binary64
    (0.0 : Float).toModel.unpack (double false canonical).toModel.unpack)) = _
  rw [unpack_zero, unpack_double]
  rfl

private theorem double_add_zero : double false canonical + 0.0 = double false canonical := by
  change Float.ofModel (.pack (UnpackedFloat.add Format.binary64
    (double false canonical).toModel.unpack (0.0 : Float).toModel.unpack)) = _
  rw [unpack_zero, unpack_double]
  rfl

private theorem zero_mul_double : 0.0 * double false canonical = 0.0 := by
  change Float.ofModel (.pack (UnpackedFloat.mul Format.binary64
    (0.0 : Float).toModel.unpack (double false canonical).toModel.unpack)) = _
  rw [unpack_zero, unpack_double]
  exact pack_zero

private theorem double_mul_zero : double false canonical * 0.0 = 0.0 := by
  change Float.ofModel (.pack (UnpackedFloat.mul Format.binary64
    (double false canonical).toModel.unpack (0.0 : Float).toModel.unpack)) = _
  rw [unpack_zero, unpack_double]
  exact pack_zero

end Zero

private theorem pack_unpack (x : Float) : Float.ofModel (.pack x.toModel.unpack) = x := by
  apply eq_of_toBitVec
  exact pack_unpack_of_valid x.toModel.valid

private theorem unpack_negZero : (-0.0 : Float).toModel.unpack = .zero .negative := by
  change (Float.ofModel (.pack (0.0 : Float).toModel.unpack.neg)).toModel.unpack = _
  rw [unpack_zero]
  rfl

/-- Nothing is changed by a negative zero in front, not even the sign of a zero. -/
theorem negZero_add (x : Float) : -0.0 + x = x := by
  change Float.ofModel (.pack (UnpackedFloat.add Format.binary64
    (-0.0 : Float).toModel.unpack x.toModel.unpack)) = x
  have kept : ∀ number, UnpackedFloat.add Format.binary64 (.zero .negative) number = number := by
    intro number
    cases number with
    | zero sign => cases sign <;> rfl
    | infinity | notANumber | finite => rfl
  rw [unpack_negZero, kept, pack_unpack]

/-! Halves -/

/-- The double is this number of halves. -/
def IsHalves (x : Float) (n : Nat) : Prop :=
  n = 0 ∧ x = 0.0 ∨
    ∃ mantissa exponent, ∃ canonical : Canonical mantissa exponent,
      x = double false canonical ∧ (mantissa : ℚ) * 2 ^ exponent = n / 2

theorem exists_canonical_halves {n : Nat} (positive : 0 < n) (small : n < 2 ^ 53) :
    ∃ mantissa exponent, Canonical mantissa exponent ∧
      (mantissa : ℚ) * 2 ^ exponent = n / 2 := by
  have short : n.log2 < 53 := (Nat.log2_lt positive.ne').mpr small
  obtain ⟨places, sum⟩ : ∃ places : Nat, n.log2 + places = 52 := ⟨52 - n.log2, by omega⟩
  obtain ⟨filled, fits, _, _, full⟩ := canonical_filled positive sum
  refine ⟨n * 2 ^ places, -places - 1,
    ⟨filled, fits, by omega, by omega, .inl (full.resolve_right (by omega))⟩, ?_⟩
  rw [zpow_sub₀ (two_ne_zero' ℚ), zpow_neg, zpow_natCast, zpow_one]
  push_cast
  field_simp

section Value

variable {mantissa n : Nat} {exponent : Int} (canonical : Canonical mantissa exponent)
  (value : (mantissa : ℚ) * 2 ^ exponent = n / 2)
include canonical value

private theorem pos_of_value : 0 < n := by
  have positive : (0 : ℚ) < mantissa * 2 ^ exponent :=
    mul_pos (by exact_mod_cast canonical.positive) (by positivity)
  rw [value] at positive
  have : (0 : ℚ) < n := by linarith
  exact_mod_cast this

/-- Halves are far from the lowest doubles, so all 53 bits of the mantissa are in use. -/
theorem full_of_value : 2 ^ 52 ≤ mantissa := by
  rcases canonical.full with full | lowest
  · exact full
  · have half : (1 : ℚ) ≤ n := by exact_mod_cast pos_of_value canonical value
    have fits : (mantissa : ℚ) ≤ 2 ^ 53 := by exact_mod_cast canonical.fits.le
    have tiny : (2 : ℚ) ^ (-1074 : Int) ≤ 2 ^ (-55 : Int) :=
      zpow_le_zpow_right₀ one_le_two (by norm_num)
    have below : (mantissa : ℚ) * 2 ^ exponent ≤ 2 ^ 53 * 2 ^ (-55 : Int) := by
      rw [lowest]
      gcongr
    have quarter : (2 : ℚ) ^ 53 * 2 ^ (-55 : Int) = 1 / 4 := by norm_num
    rw [quarter, value] at below
    linarith

end Value

theorem isHalves_ofScientific {digits n : Nat} {power : Int} (positive : 0 < n) (small : n < 2 ^ 53)
    (value : (digits : ℚ) * 10 ^ power = n / 2) :
    IsHalves (Float.ofScientific digits (power < 0) power.natAbs) n := by
  obtain ⟨mantissa, exponent, canonical, halves⟩ := exists_canonical_halves positive small
  refine .inr ⟨mantissa, exponent, canonical, ofScientific_eq canonical ?_, halves⟩
  rw [value, ← halves]
  exact close_self mantissa exponent

theorem isHalves_ofNat {n : Nat} (small : 2 * n < 2 ^ 53) : IsHalves (Float.ofNat n) (2 * n) := by
  by_cases zero : n = 0
  · subst zero
    exact .inl ⟨rfl, by decide +kernel⟩
  · change IsHalves (Float.ofScientific n (decide ((0 : Int) < 0)) (0 : Int).natAbs) (2 * n)
    apply isHalves_ofScientific (by omega) small
    push_cast
    ring

theorem IsHalves.add {x y : Float} {m n : Nat} (left : IsHalves x m) (right : IsHalves y n)
    (small : m + n < 2 ^ 53) : IsHalves (x + y) (m + n) := by
  rcases left with ⟨rfl, rfl⟩ | ⟨m₁, e₁, canonical₁, rfl, value₁⟩
  · rcases right with ⟨rfl, rfl⟩ | ⟨m₂, e₂, canonical₂, rfl, value₂⟩
    · exact .inl ⟨rfl, by decide +kernel⟩
    · exact .inr ⟨m₂, e₂, canonical₂, zero_add_double canonical₂, by rwa [Nat.zero_add]⟩
  · rcases right with ⟨rfl, rfl⟩ | ⟨m₂, e₂, canonical₂, rfl, value₂⟩
    · exact .inr ⟨m₁, e₁, canonical₁, double_add_zero canonical₁, by rwa [Nat.add_zero]⟩
    · have positive : 0 < m + n := Nat.add_pos_left (pos_of_value canonical₁ value₁) n
      obtain ⟨mantissa, exponent, canonical, value⟩ := exists_canonical_halves positive small
      refine .inr ⟨mantissa, exponent, canonical, add_double canonical₁ canonical₂ canonical ?_,
        value⟩
      have sum : (m₁ : ℚ) * 2 ^ e₁ + m₂ * 2 ^ e₂ = mantissa * 2 ^ exponent := by
        rw [value₁, value₂, value]
        push_cast
        ring
      rw [sum]
      exact close_self mantissa exponent

/-- A whole number of halves is still one if it is taken several times. -/
theorem IsHalves.mul {x y : Float} {m n : Nat} (left : IsHalves x (2 * m)) (right : IsHalves y n)
    (small : m * n < 2 ^ 53) : IsHalves (x * y) (m * n) := by
  rcases left with ⟨zero, rfl⟩ | ⟨m₁, e₁, canonical₁, rfl, value₁⟩
  · obtain rfl : m = 0 := by omega
    rcases right with ⟨rfl, rfl⟩ | ⟨m₂, e₂, canonical₂, rfl, value₂⟩
    · exact .inl ⟨rfl, by decide +kernel⟩
    · exact .inl ⟨Nat.zero_mul n, zero_mul_double canonical₂⟩
  · rcases right with ⟨rfl, rfl⟩ | ⟨m₂, e₂, canonical₂, rfl, value₂⟩
    · exact .inl ⟨Nat.mul_zero m, double_mul_zero canonical₁⟩
    · have twice := pos_of_value canonical₁ value₁
      have positive : 0 < m * n := Nat.mul_pos (by omega) (pos_of_value canonical₂ value₂)
      obtain ⟨mantissa, exponent, canonical, value⟩ := exists_canonical_halves positive small
      refine .inr ⟨mantissa, exponent, canonical,
        mul_double canonical₁ canonical₂ canonical (full_of_value canonical₁ value₁) ?_, value⟩
      have product : (m₁ : ℚ) * 2 ^ e₁ * (m₂ * 2 ^ e₂) = mantissa * 2 ^ exponent := by
        rw [value₁, value₂, value]
        push_cast
        ring
      rw [product]
      exact close_self mantissa exponent

theorem exactValue?_double {mantissa : Nat} {exponent : Int}
    (canonical : Canonical mantissa exponent) (full : 2 ^ 52 ≤ mantissa) :
    exactValue? (double false canonical) = some ((mantissa : ℚ) * 2 ^ exponent) := by
  have fits := canonical.fits
  have lowest := canonical.lowest
  have highest := canonical.highest
  have field : (BitVec.ofNat 11 (exponent + 1075).toNat).toNat = (exponent + 1075).toNat := by
    rw [BitVec.toNat_ofNat]
    omega
  have fraction : (BitVec.ofNat 52 mantissa).toNat = mantissa - 2 ^ 52 := by
    rw [BitVec.toNat_ofNat]
    omega
  have reading : Reading.ofFloat (double false canonical) =
      .finite
        { negative := false
          mantissa
          exponent
          isLowest := mantissa - 2 ^ 52 = 0 && (exponent + 1075).toNat ≠ 1 } := by
    rw [Reading.ofFloat, ← UInt64.toNat_toBitVec, toBitVec_double, pack_of_full _ canonical full,
      ofBits_packComponents, field, fraction, fullField, if_neg (by omega), if_neg (by omega)]
    have whole : exponentWeight + (mantissa - 2 ^ 52) = mantissa := by
      rw [exponentWeight]
      omega
    have shifted : ((exponent + 1075).toNat : Int) - 1075 = exponent := by omega
    rw [whole, shifted]
  rw [exactValue?, reading]
  simp

theorem exactValue?_of_isHalves {x : Float} {n : Nat} (halves : IsHalves x n) :
    exactValue? x = some ((n : ℚ) / 2) := by
  rcases halves with ⟨rfl, rfl⟩ | ⟨mantissa, exponent, canonical, rfl, value⟩
  · have reading : Reading.ofFloat 0.0 =
        .finite { negative := false, mantissa := 0, exponent := -1074, isLowest := false } := by
      decide +kernel
    rw [exactValue?, reading]
    simp
  · rw [exactValue?_double canonical (full_of_value canonical value), value]

end SnippetAudit.Decimal
