import Mathlib.Algebra.Order.Field.Power
import Mathlib.Tactic.FieldSimp
import Mathlib.Tactic.Linarith
import Mathlib.Tactic.Positivity
import Mathlib.Tactic.Ring

/-!
Rounding to doubles, told with rational numbers.

Doubles are rounded by shifting a mantissa to the right while two marks keep track of what was
shifted out. A mantissa with its marks stands for a rational; the main statement says that it is
rounded to a double whenever that rational is in the interval of those that round to the double.
-/

set_option autoImplicit false

namespace SnippetAudit.Decimal

open Float.Model Float.Model.UnpackedFloat

/-! Nearest integers -/

/-- The rational rounds to the integer, a half to the even neighbour. -/
structure Near (n : Nat) (y : ℚ) : Prop where
  low : (n : ℚ) - 1 / 2 ≤ y
  high : y ≤ (n : ℚ) + 1 / 2
  tie : y = (n : ℚ) - 1 / 2 ∨ y = (n : ℚ) + 1 / 2 → n % 2 = 0

theorem Near.of_lt {n : Nat} {y : ℚ} (low : (n : ℚ) - 1 / 2 < y) (high : y < (n : ℚ) + 1 / 2) :
    Near n y := by
  refine ⟨low.le, high.le, ?_⟩
  rintro (same | same) <;> linarith

theorem Near.le {m n : Nat} {y : ℚ} (left : Near m y) (right : Near n y) : m ≤ n := by
  by_contra greater
  have apart : (n : ℚ) + 1 ≤ m := by exact_mod_cast Nat.lt_of_not_le greater
  have highest := right.high
  have lowest := left.low
  have half : y = (n : ℚ) + 1 / 2 := by linarith
  have next : (m : ℚ) = (n + 1 : Nat) := by push_cast; linarith
  have successor : m = n + 1 := by exact_mod_cast next
  have evenRight := right.tie (.inr half)
  have evenLeft := left.tie (.inl (by rw [half, next]; push_cast; ring))
  omega

theorem Near.unique {m n : Nat} {y : ℚ} (left : Near m y) (right : Near n y) : m = n :=
  Nat.le_antisymm (left.le right) (right.le left)

/-! Mantissas with marks -/

/-- What a mantissa with its marks stands for: a rational with this integral part. One mark tells
whether it reaches the half, the other whether it is more than the integral part and the first mark
say. -/
structure Marks (marked : ExtendedMantissa) (y : ℚ) : Prop where
  low : (marked.mantissa : ℚ) ≤ y
  high : y < (marked.mantissa : ℚ) + 1
  half : marked.roundBit = true ↔ (marked.mantissa : ℚ) + 1 / 2 ≤ y
  more : marked.stickyBit = true ↔
    y ≠ (marked.mantissa : ℚ) ∧ y ≠ (marked.mantissa : ℚ) + 1 / 2

theorem Marks.near {marked : ExtendedMantissa} {y : ℚ} (marks : Marks marked y) :
    Near marked.roundedMantissa y := by
  obtain ⟨n, half, more⟩ := marked
  obtain ⟨low, high, reaches, beyond⟩ := marks
  cases half with
  | false =>
      have down : (⟨n, false, more⟩ : ExtendedMantissa).roundedMantissa = n := by cases more <;> rfl
      have short : y < (n : ℚ) + 1 / 2 := by simpa using reaches
      rw [down]
      exact .of_lt (by linarith) short
  | true =>
      have enough : (n : ℚ) + 1 / 2 ≤ y := by simpa using reaches
      cases more with
      | true =>
          have up : (⟨n, true, true⟩ : ExtendedMantissa).roundedMantissa = n + 1 := rfl
          have different : y ≠ (n : ℚ) + 1 / 2 := (beyond.mp rfl).2
          have above : (n : ℚ) + 1 / 2 < y := lt_of_le_of_ne enough different.symm
          rw [up]
          exact .of_lt (by push_cast; linarith) (by push_cast; linarith)
      | false =>
          have even : (⟨n, true, false⟩ : ExtendedMantissa).roundedMantissa = n + n % 2 := rfl
          have exactly : y = (n : ℚ) + 1 / 2 := by
            by_contra different
            have larger : y ≠ n := by linarith
            simpa using beyond.mpr ⟨larger, different⟩
          rw [even]
          rcases Nat.mod_two_eq_zero_or_one n with zero | one
          · rw [zero]
            exact ⟨by push_cast; linarith, by push_cast; linarith, fun _ => by omega⟩
          · rw [one]
            exact ⟨by push_cast; linarith, by push_cast; linarith, fun _ => by omega⟩

/-- Shifting by one place halves what is stood for. -/
theorem Marks.shiftRightOne {marked : ExtendedMantissa} {y : ℚ} (marks : Marks marked y) :
    Marks marked.shiftRightOne (y / 2) := by
  obtain ⟨n, half, more⟩ := marked
  obtain ⟨low, high, reaches, beyond⟩ := marks
  simp only at low high reaches beyond
  have inexact : (half || more) = true ↔ y ≠ n := by
    rw [Bool.or_eq_true, reaches, beyond]
    constructor
    · rintro (enough | ⟨different, _⟩)
      · linarith
      · exact different
    · intro different
      by_cases enough : (n : ℚ) + 1 / 2 ≤ y
      · exact .inl enough
      · exact .inr ⟨different, by linarith⟩
  -- Below `2 * k + 2`, the lowest bit tells whether the half of the rational reaches its half.
  obtain ⟨k, even | odd⟩ := Nat.even_or_odd' n
  · have halved : n / 2 = k := by omega
    have bit : (n % 2 != 0) = false := by simp; omega
    have cast : (n : ℚ) = 2 * k := by exact_mod_cast even
    simp only [ExtendedMantissa.shiftRightOne, halved, bit]
    refine ⟨by simp only; linarith, by simp only; linarith, ?_, ?_⟩
    · simp only [Bool.false_eq_true, false_iff, not_le]
      linarith
    · rw [inexact]
      constructor
      · intro different
        exact ⟨fun same => different (by linarith), by simp only; linarith⟩
      · rintro ⟨different, _⟩ same
        exact different (by simp only; linarith)
  · have halved : n / 2 = k := by omega
    have bit : (n % 2 != 0) = true := by simp; omega
    have cast : (n : ℚ) = 2 * k + 1 := by exact_mod_cast odd
    simp only [ExtendedMantissa.shiftRightOne, halved, bit]
    refine ⟨by simp only; linarith, by simp only; linarith, ?_, ?_⟩
    · simp only [true_iff]
      linarith
    · rw [inexact]
      constructor
      · intro different
        exact ⟨by simp only; linarith, fun same => different (by linarith)⟩
      · rintro ⟨_, different⟩ same
        exact different (by simp only; linarith)

theorem Marks.shiftRight {marked : ExtendedMantissa} {y : ℚ} (marks : Marks marked y)
    (places : Nat) : Marks (marked >>> places) (y / 2 ^ places) := by
  change Marks (places.repeat ExtendedMantissa.shiftRightOne marked) _
  induction places with
  | zero => simpa [Nat.repeat] using marks
  | succ places ih =>
      have shifted := ih.shiftRightOne
      rw [div_div, ← pow_succ] at shifted
      exact shifted

/-- A mantissa that stands for itself. -/
theorem marks_exact (n : Nat) :
    Marks (ExtendedMantissa.ofMantissaAndAccuracy n .exact) n := by
  refine ⟨le_rfl, by simp [ExtendedMantissa.ofMantissaAndAccuracy], ?_, ?_⟩ <;>
    simp [ExtendedMantissa.ofMantissaAndAccuracy]

/-- A mantissa with a part of its unit behind it, told by the order of that part and the half. -/
theorem marks_inexact {n : Nat} {part : ℚ} {order : Ordering} (positive : 0 < part)
    (below : part < 1) (less : order = .lt ↔ part < 1 / 2) (greater : order = .gt ↔ 1 / 2 < part) :
    Marks (ExtendedMantissa.ofMantissaAndAccuracy n (.inexact order)) (n + part) := by
  cases order with
  | lt =>
      have short := less.mp rfl
      refine ⟨?_, ?_, ?_, ?_⟩ <;> simp only [ExtendedMantissa.ofMantissaAndAccuracy]
      · linarith
      · linarith
      · simp only [Bool.false_eq_true, false_iff]
        linarith
      · simp only [true_iff]
        exact ⟨by linarith, by linarith⟩
  | eq =>
      have exactly : part = 1 / 2 :=
        le_antisymm (not_lt.mp (mt greater.mpr (by decide))) (not_lt.mp (mt less.mpr (by decide)))
      refine ⟨?_, ?_, ?_, ?_⟩ <;> simp only [ExtendedMantissa.ofMantissaAndAccuracy, exactly]
      · linarith
      · linarith
      · simp
      · simp
  | gt =>
      have long := greater.mp rfl
      refine ⟨?_, ?_, ?_, ?_⟩ <;> simp only [ExtendedMantissa.ofMantissaAndAccuracy]
      · linarith
      · linarith
      · simp only [true_iff]
        linarith
      · simp only [true_iff]
        exact ⟨by linarith, by linarith⟩

/-- The mantissa of a quotient, with the marks that the remainder gives. -/
theorem marks_quotient (num : Nat) {den : Nat} (positive : 0 < den) :
    Marks (ExtendedMantissa.ofMantissaAndAccuracy (num / den) (accuracyOfFraction (num % den) den))
      ((num : ℚ) / den) := by
  have positiveCast : (0 : ℚ) < den := by exact_mod_cast positive
  have split : (num : ℚ) / den = (num / den : Nat) + (num % den : Nat) / (den : ℚ) := by
    rw [div_eq_iff positiveCast.ne', add_mul, div_mul_cancel₀ _ positiveCast.ne']
    exact_mod_cast (Nat.div_add_mod' num den).symm
  have small : num % den < den := Nat.mod_lt _ positive
  rw [split]
  generalize num / den = n at *
  generalize num % den = rest at *
  by_cases zero : rest = 0
  · subst zero
    simpa [accuracyOfFraction] using marks_exact n
  · rw [accuracyOfFraction, if_neg zero]
    apply marks_inexact
    · have := Nat.pos_of_ne_zero zero
      positivity
    · rw [div_lt_one positiveCast]
      exact_mod_cast small
    · rw [compare_lt_iff_lt, div_lt_div_iff₀ positiveCast two_pos, one_mul, mul_comm 2]
      exact_mod_cast Iff.rfl
    · rw [compare_gt_iff_gt, div_lt_div_iff₀ two_pos positiveCast, one_mul, mul_comm 2]
      exact_mod_cast Iff.rfl

/-! Doubles -/

/-- A mantissa and an exponent as a positive double has them: 53 bits, or fewer at the lowest
exponent. -/
structure Canonical (mantissa : Nat) (exponent : Int) : Prop where
  positive : 0 < mantissa
  fits : mantissa < 2 ^ 53
  lowest : -1074 ≤ exponent
  highest : exponent ≤ 971
  full : 2 ^ 52 ≤ mantissa ∨ exponent = -1074

/-- The rationals that round to `mantissa * 2 ^ exponent`. Below a power of two the doubles are
twice as close, so that the interval is shorter there. -/
structure Close (mantissa : Nat) (exponent : Int) (x : ℚ) : Prop where
  near : Near mantissa (x / 2 ^ exponent)
  finer : mantissa = 2 ^ 52 → exponent ≠ -1074 → (mantissa : ℚ) - 1 / 4 ≤ x / 2 ^ exponent

theorem close_self (mantissa : Nat) (exponent : Int) :
    Close mantissa exponent (mantissa * 2 ^ exponent) := by
  have same : (mantissa : ℚ) * 2 ^ exponent / 2 ^ exponent = mantissa :=
    mul_div_cancel_right₀ _ (by positivity)
  refine ⟨?_, fun _ _ => ?_⟩
  · rw [same]
    exact .of_lt (by linarith) (by linarith)
  · rw [same]
    linarith

/-- The exponent to which a rational is shifted is told by its binary places. It is that of the
double, or one less if rounding will carry into the next place. -/
theorem Close.exponent_eq {mantissa : Nat} {exponent target : Int} {x : ℚ}
    (close : Close mantissa exponent x) (canonical : Canonical mantissa exponent)
    (lowest : -1074 ≤ target) (below : x < 2 ^ (target + 53))
    (above : target ≠ -1074 → 2 ^ (target + 52) ≤ x) :
    target = exponent ∨ target + 1 = exponent ∧ mantissa = 2 ^ 52 := by
  have unit : (0 : ℚ) < 2 ^ exponent := by positivity
  have least := close.near.low
  have most := close.near.high
  have canonicalLowest := canonical.lowest
  have scaled_lt : ∀ places : Nat, target + 53 ≤ exponent + places →
      x / 2 ^ exponent < 2 ^ places := by
    intro places enough
    rw [div_lt_iff₀ unit, ← zpow_natCast, ← zpow_add₀ (two_ne_zero' ℚ), add_comm]
    exact below.trans_le (zpow_le_zpow_right₀ one_le_two enough)
  rcases lt_trichotomy target exponent with less | same | greater
  · have full : 2 ^ 52 ≤ mantissa := canonical.full.resolve_right (by omega)
    have fullCast : (2 : ℚ) ^ 52 ≤ mantissa := by exact_mod_cast full
    have small : (mantissa : ℚ) < 2 ^ 52 + 1 := by
      have := scaled_lt 52 (by push_cast; omega)
      linarith
    have exactly : mantissa = 2 ^ 52 := by
      have : mantissa < 2 ^ 52 + 1 := by exact_mod_cast small
      omega
    refine .inr ⟨?_, exactly⟩
    by_contra apart
    have tooSmall := scaled_lt 51 (by push_cast; omega)
    linarith
  · exact .inl same
  · have large := above (by omega)
    have fits : (mantissa : ℚ) + 1 ≤ 2 ^ 53 := by exact_mod_cast canonical.fits
    have scaled : (2 : ℚ) ^ 53 ≤ x / 2 ^ exponent := by
      rw [le_div_iff₀ unit, ← zpow_natCast, ← zpow_add₀ (two_ne_zero' ℚ)]
      exact (zpow_le_zpow_right₀ one_le_two (by push_cast; omega)).trans large
    linarith

theorem targetExponent_eq (total : Int) :
    Format.binary64.targetExponent total = max (total - 53) (-1074) :=
  rfl

theorem targetExponent_total (mantissa : Nat) (exponent : Int) :
    Format.binary64.targetExponent (totalExponent mantissa exponent) =
      max (mantissa.log2 + exponent - 52) (-1074) := by
  rw [targetExponent_eq, totalExponent]
  omega

private theorem mantissa_ofMantissaAndAccuracy (mantissa : Nat) (accuracy : Accuracy) :
    (ExtendedMantissa.ofMantissaAndAccuracy mantissa accuracy).mantissa = mantissa := by
  rcases accuracy with _ | (_ | _ | _) <;> rfl

/-- The binary places of what a mantissa stands for are those of the mantissa. -/
theorem Marks.places {n : Nat} {accuracy : Accuracy} {y : ℚ}
    (marks : Marks (ExtendedMantissa.ofMantissaAndAccuracy n accuracy) y) (e : Int) :
    y * 2 ^ e < 2 ^ ((n.log2 : Int) + e + 1) ∧
      (n ≠ 0 → 2 ^ ((n.log2 : Int) + e) ≤ y * 2 ^ e) := by
  have unit : (0 : ℚ) < 2 ^ e := by positivity
  have low := marks.low
  have high := marks.high
  rw [mantissa_ofMantissaAndAccuracy] at low high
  constructor
  · have bits : (n : ℚ) + 1 ≤ 2 ^ (n.log2 + 1) := by exact_mod_cast Nat.lt_log2_self
    calc y * 2 ^ e < 2 ^ (n.log2 + 1) * 2 ^ e :=
          mul_lt_mul_of_pos_right (high.trans_le bits) unit
      _ = 2 ^ ((n.log2 : Int) + e + 1) := by
          rw [← zpow_natCast, ← zpow_add₀ (two_ne_zero' ℚ), Nat.cast_succ, add_right_comm]
  · intro nonzero
    have bits : (2 : ℚ) ^ n.log2 ≤ n := by exact_mod_cast Nat.log2_self_le nonzero
    calc (2 : ℚ) ^ ((n.log2 : Int) + e) = 2 ^ n.log2 * 2 ^ e := by
          rw [zpow_add₀ (two_ne_zero' ℚ), zpow_natCast]
      _ ≤ y * 2 ^ e := mul_le_mul_of_nonneg_right (bits.trans low) unit.le

/-- Below a power of two, in the finer places there, what is close to that power rounds to it. -/
theorem Close.near_carry {target : Int} {x : ℚ} (close : Close (2 ^ 52) (target + 1) x)
    (lowest : -1074 ≤ target) (below : x < 2 ^ (target + 53)) : Near (2 ^ 53) (x / 2 ^ target) := by
  have finer := close.finer rfl (by omega)
  have halves : x / 2 ^ target = 2 * (x / 2 ^ (target + 1)) := by
    rw [zpow_add₀ (two_ne_zero' ℚ)]
    field_simp
  have most : x / 2 ^ target < 2 ^ 53 := by
    rw [div_lt_iff₀ (by positivity), ← zpow_natCast, ← zpow_add₀ (two_ne_zero' ℚ), add_comm]
    exact below
  push_cast at finer
  exact ⟨by push_cast; linarith, by push_cast; linarith, fun _ => by norm_num⟩

/-- Behind the rounding, a mantissa that fits stays as it is. -/
theorem shiftToTargetExponent_of_fits {mantissa : Nat} {exponent : Int}
    (fits : mantissa < 2 ^ 53) (lowest : -1074 ≤ exponent) :
    shiftToTargetExponent Format.binary64 mantissa exponent .exact =
      (⟨mantissa, false, false⟩, exponent) := by
  have short : mantissa.log2 ≤ 52 := by
    by_cases zero : mantissa = 0
    · simp [zero]
    · have := (Nat.log2_lt zero).mpr fits
      omega
  have stays : (max ((mantissa.log2 : Int) + exponent - 52) (-1074) - exponent).toNat = 0 := by
    omega
  simp [shiftToTargetExponent, shiftToExponent, targetExponent_total, stays,
    HShiftRight.hShiftRight, Nat.repeat, ExtendedMantissa.ofMantissaAndAccuracy]

/-- A mantissa that was rounded up to one place more loses that place again. -/
theorem shiftToTargetExponent_of_carry {exponent : Int} (lowest : -1074 ≤ exponent) :
    shiftToTargetExponent Format.binary64 (2 ^ 53) exponent .exact =
      (⟨2 ^ 52, false, false⟩, exponent + 1) := by
  have once : (max (((2 ^ 53 : Nat).log2 : Int) + exponent - 52) (-1074) - exponent).toNat = 1 := by
    rw [Nat.log2_two_pow]
    omega
  simp only [shiftToTargetExponent, shiftToExponent, targetExponent_total, once]
  rfl

private theorem roundWithAccuracy_of_shifts {n mantissa : Nat} {e target exponent : Int}
    {accuracy : Accuracy} {marked : ExtendedMantissa} (sign : Sign)
    (first : shiftToTargetExponent Format.binary64 n e accuracy = (marked, target))
    (second : shiftToTargetExponent Format.binary64 marked.roundedMantissa target .exact =
      (⟨mantissa, false, false⟩, exponent))
    (positive : 0 < mantissa) :
    roundWithAccuracy Format.binary64 sign n e accuracy =
      .finite sign mantissa exponent positive := by
  rw [roundWithAccuracy, first]
  dsimp only
  rw [second]
  exact dif_neg positive.ne'

/-- Rounding is right: a mantissa that stands for a rational that is close to a double becomes that
double, provided that no place of the double is missing from the mantissa. -/
theorem roundWithAccuracy_eq {n mantissa : Nat} {e exponent : Int} {accuracy : Accuracy} {y : ℚ}
    (sign : Sign) (marks : Marks (ExtendedMantissa.ofMantissaAndAccuracy n accuracy) y)
    (precise : e ≤ max ((n.log2 : Int) + e - 52) (-1074))
    (canonical : Canonical mantissa exponent) (close : Close mantissa exponent (y * 2 ^ e)) :
    roundWithAccuracy Format.binary64 sign n e accuracy =
      .finite sign mantissa exponent canonical.positive := by
  generalize targetIs : max ((n.log2 : Int) + e - 52) (-1074) = target at precise
  have lowest : -1074 ≤ target := by omega
  have below : y * 2 ^ e < 2 ^ (target + 53) :=
    (marks.places e).1.trans_le (zpow_le_zpow_right₀ one_le_two (by omega))
  have above : target ≠ -1074 → 2 ^ (target + 52) ≤ y * 2 ^ e := by
    intro normal
    have nonzero : n ≠ 0 := by
      rintro rfl
      simp at targetIs
      omega
    have sum : target + 52 = n.log2 + e := by omega
    rw [sum]
    exact (marks.places e).2 nonzero
  have shifted := (marks.shiftRight (target - e).toNat).near
  have reached : e + ((target - e).toNat : Int) = target := by omega
  have scaled : y / 2 ^ (target - e).toNat = y * 2 ^ e / 2 ^ target := by
    have unit : (2 : ℚ) ^ e ≠ 0 := by positivity
    rw [← reached, zpow_add₀ (two_ne_zero' ℚ), zpow_natCast, reached, mul_comm y,
      mul_div_mul_left _ _ unit]
  rw [scaled] at shifted
  have first : shiftToTargetExponent Format.binary64 n e accuracy =
      (ExtendedMantissa.ofMantissaAndAccuracy n accuracy >>> (target - e).toNat, target) := by
    simp only [shiftToTargetExponent, shiftToExponent, targetExponent_total, targetIs, reached]
  rcases close.exponent_eq canonical lowest below above with rfl | ⟨rfl, rfl⟩
  · apply roundWithAccuracy_of_shifts sign first
    rw [shifted.unique close.near]
    exact shiftToTargetExponent_of_fits canonical.fits lowest
  · apply roundWithAccuracy_of_shifts sign first
    rw [shifted.unique (close.near_carry lowest below)]
    exact shiftToTargetExponent_of_carry lowest

/-! Products and quotients -/

/-- A product is rounded right if its mantissas have all the places together. -/
theorem mul_finite {n₁ n₂ mantissa : Nat} {e₁ e₂ exponent : Int} (positive₁ : 0 < n₁)
    (positive₂ : 0 < n₂) (places : 2 ^ 52 ≤ n₁ * n₂) (canonical : Canonical mantissa exponent)
    (close : Close mantissa exponent (n₁ * 2 ^ e₁ * (n₂ * 2 ^ e₂))) :
    mul Format.binary64 (.finite .positive n₁ e₁ positive₁) (.finite .positive n₂ e₂ positive₂) =
      .finite .positive mantissa exponent canonical.positive := by
  have nonzero : n₁ * n₂ ≠ 0 := (Nat.mul_pos positive₁ positive₂).ne'
  have long : 52 ≤ (n₁ * n₂).log2 := (Nat.le_log2 nonzero).mpr places
  apply roundWithAccuracy_eq _ (marks_exact (n₁ * n₂)) (by omega) canonical
  have product : ((n₁ * n₂ : Nat) : ℚ) * 2 ^ (e₁ + e₂) = n₁ * 2 ^ e₁ * (n₂ * 2 ^ e₂) := by
    rw [zpow_add₀ (two_ne_zero' ℚ)]
    push_cast
    ring
  rw [product]
  exact close

/-- A shifted mantissa whose places exceed those of the divisor by 53 leaves a quotient that has all
the places of a double. -/
theorem le_log2_shifted_div {n₁ n₂ places : Nat} (positive₁ : 0 < n₁) (positive₂ : 0 < n₂)
    (long : n₂.log2 + 53 ≤ n₁.log2 + places) : 52 ≤ ((n₁ <<< places) / n₂).log2 := by
  have enough : 2 ^ 52 ≤ (n₁ <<< places) / n₂ := by
    rw [Nat.le_div_iff_mul_le positive₂, Nat.shiftLeft_eq]
    calc 2 ^ 52 * n₂ ≤ 2 ^ 52 * 2 ^ (n₂.log2 + 1) :=
          Nat.mul_le_mul_left _ Nat.lt_log2_self.le
      _ = 2 ^ (n₂.log2 + 53) := by rw [← Nat.pow_add]; congr 1; omega
      _ ≤ 2 ^ (n₁.log2 + places) := Nat.pow_le_pow_right two_pos long
      _ = 2 ^ n₁.log2 * 2 ^ places := Nat.pow_add ..
      _ ≤ n₁ * 2 ^ places := Nat.mul_le_mul_right _ (Nat.log2_self_le positive₁.ne')
  exact (Nat.le_log2 (by omega)).mpr enough

/-- A quotient is rounded right. -/
theorem div_finite {n₁ n₂ mantissa : Nat} {e₁ e₂ exponent : Int} (positive₁ : 0 < n₁)
    (positive₂ : 0 < n₂) (canonical : Canonical mantissa exponent)
    (close : Close mantissa exponent (n₁ * 2 ^ e₁ / (n₂ * 2 ^ e₂))) :
    UnpackedFloat.div Format.binary64 (.finite .positive n₁ e₁ positive₁)
        (.finite .positive n₂ e₂ positive₂) =
      .finite .positive mantissa exponent canonical.positive := by
  obtain ⟨target, targetIs⟩ : ∃ target, target = min (e₁ - e₂)
      (Format.binary64.targetExponent (totalExponent n₁ e₁ - totalExponent n₂ e₂)) := ⟨_, rfl⟩
  obtain ⟨places, shift⟩ : ∃ places, places = (e₁ - e₂ - target).toNat := ⟨_, rfl⟩
  have rounded : UnpackedFloat.div Format.binary64 (.finite .positive n₁ e₁ positive₁)
      (.finite .positive n₂ e₂ positive₂) =
      roundWithAccuracy Format.binary64 .positive ((n₁ <<< places) / n₂) target
        (accuracyOfFraction ((n₁ <<< places) % n₂) n₂) := by
    rw [shift, targetIs]
    rfl
  rw [targetExponent_eq, totalExponent, totalExponent] at targetIs
  have precise : target ≤ max ((((n₁ <<< places) / n₂).log2 : Int) + target - 52) (-1074) := by
    by_cases lowest : target ≤ -1074
    · omega
    · have long : 52 ≤ ((n₁ <<< places) / n₂).log2 :=
        le_log2_shifted_div positive₁ positive₂ (by omega)
      omega
  rw [rounded]
  apply roundWithAccuracy_eq _ (marks_quotient _ positive₂) precise canonical
  have quotient : ((n₁ <<< places : Nat) : ℚ) / n₂ * 2 ^ target =
      n₁ * 2 ^ e₁ / (n₂ * 2 ^ e₂) := by
    have sum : e₁ = places + target + e₂ := by omega
    have unit : (2 : ℚ) ^ e₂ ≠ 0 := by positivity
    rw [Nat.shiftLeft_eq, sum, zpow_add₀ (two_ne_zero' ℚ), zpow_add₀ (two_ne_zero' ℚ), zpow_natCast]
    push_cast
    field_simp
  rw [quotient]
  exact close

end SnippetAudit.Decimal
