import SnippetAudit.Proofs.Decimal.Doubles

/-!
The total order of doubles.

All patterns of 64 bits are in one order: first by their place on the extended line, then by their
sign, and those that are no numbers outside of all others. Read as sign and magnitude, a pattern
comes later the greater its magnitude is, or the smaller if its sign is set, so an integer key gives
the same order.
-/

set_option autoImplicit false

namespace SnippetAudit.Decimal

/-! The order -/

/-- The place of a pattern on the extended line, unless it is not a number. -/
noncomputable def linePlace? (bits : Nat) : Option EReal :=
  match Reading.ofBits bits with
  | .finite value =>
      let size : ℝ := value.mantissa * 2 ^ value.exponent
      some (((if value.negative then -1 else 1) * size : ℝ) : EReal)
  | .infinite negative => some (if negative then ⊥ else ⊤)
  | .notANumber => none

/-- Whether the sign of a pattern is set. -/
def isNegative (bits : Nat) : Bool :=
  signWeight ≤ bits

/-- One pattern is before another. Numbers are in the order of the line, and of two zeros the
negative one is first. Patterns that are no numbers lie outside of all numbers, on the side of
their sign, and further out with a greater fraction. -/
inductive Precedes (bits other : Nat) : Prop where
  | numbers {place further : EReal} :
      linePlace? bits = some place → linePlace? other = some further → place < further →
      Precedes bits other
  | zeros :
      linePlace? bits = some 0 → linePlace? other = some 0 →
      isNegative bits = true → isNegative other = false → Precedes bits other
  | belowNumbers {place : EReal} :
      linePlace? bits = none → isNegative bits = true → linePlace? other = some place →
      Precedes bits other
  | aboveNumbers {place : EReal} :
      linePlace? bits = some place → linePlace? other = none → isNegative other = false →
      Precedes bits other
  | aroundNumbers :
      linePlace? bits = none → linePlace? other = none →
      isNegative bits = true → isNegative other = false → Precedes bits other
  | furtherBelow :
      linePlace? bits = none → linePlace? other = none →
      isNegative bits = true → isNegative other = true →
      other % exponentWeight < bits % exponentWeight → Precedes bits other
  | furtherAbove :
      linePlace? bits = none → linePlace? other = none →
      isNegative bits = false → isNegative other = false →
      bits % exponentWeight < other % exponentWeight → Precedes bits other

/-! Magnitudes -/

/-- The magnitude with all bits of the exponent set and no others. -/
def infiniteMagnitude : Nat := fullField * exponentWeight

/-- The size of a finite number with these fields. -/
noncomputable def finiteSize (field fraction : Nat) : ℝ :=
  if field = 0 then fraction * 2 ^ (-1074 : Int)
  else (exponentWeight + fraction : Nat) * 2 ^ ((field : Int) - 1075)

/-- The size by the bits behind the sign. -/
noncomputable def sizeAt (magnitude : Nat) : ℝ :=
  finiteSize (magnitude / exponentWeight) (magnitude % exponentWeight)

private theorem finiteSize_lt_of_fraction {fraction more : Nat} (field : Nat)
    (less : fraction < more) : finiteSize field fraction < finiteSize field more := by
  unfold finiteSize
  split
  · exact mul_lt_mul_of_pos_right (by exact_mod_cast less) (by positivity)
  · exact mul_lt_mul_of_pos_right (by exact_mod_cast Nat.add_lt_add_left less _) (by positivity)

/-- The next field starts behind the greatest fraction. -/
theorem finiteSize_lt_next (field : Nat) {fraction : Nat} (small : fraction < exponentWeight) :
    finiteSize field fraction < finiteSize (field + 1) 0 := by
  have shifted : ((field + 1 : Nat) : Int) - 1075 = field - 1074 := by omega
  have next : finiteSize (field + 1) 0 = exponentWeight * 2 ^ ((field : Int) - 1074) := by
    rw [finiteSize, if_neg (Nat.succ_ne_zero field), shifted, Nat.add_zero]
  rw [next, finiteSize]
  split
  · next none =>
      subst none
      exact mul_lt_mul_of_pos_right (by exact_mod_cast small) (by positivity)
  · have twice : (2 : ℝ) ^ ((field : Int) - 1074) = 2 * 2 ^ ((field : Int) - 1075) := by
      rw [← zpow_one_add₀ two_ne_zero]
      congr 1
      ring
    rw [twice, ← mul_assoc]
    refine mul_lt_mul_of_pos_right ?_ (by positivity)
    exact_mod_cast (by omega : exponentWeight + fraction < exponentWeight * 2)

private theorem sizeAt_strictMono : StrictMono sizeAt := by
  apply strictMono_nat_of_lt_succ
  intro magnitude
  have small : magnitude % exponentWeight < exponentWeight := Nat.mod_lt _ (by decide)
  unfold sizeAt
  by_cases carry : magnitude % exponentWeight + 1 < exponentWeight
  · have field : (magnitude + 1) / exponentWeight = magnitude / exponentWeight := by
      unfold exponentWeight at *
      omega
    have fraction : (magnitude + 1) % exponentWeight = magnitude % exponentWeight + 1 := by
      unfold exponentWeight at *
      omega
    rw [field, fraction]
    exact finiteSize_lt_of_fraction _ (Nat.lt_succ_self _)
  · have field : (magnitude + 1) / exponentWeight = magnitude / exponentWeight + 1 := by
      unfold exponentWeight at *
      omega
    have fraction : (magnitude + 1) % exponentWeight = 0 := by
      unfold exponentWeight at *
      omega
    rw [field, fraction]
    exact finiteSize_lt_next _ small

private theorem sizeAt_zero : sizeAt 0 = 0 := by
  simp [sizeAt, finiteSize]

/-- The place of a magnitude on the line, up to the infinite one. -/
noncomputable def placeAt (magnitude : Nat) : EReal :=
  if magnitude < infiniteMagnitude then (sizeAt magnitude : EReal) else ⊤

theorem placeAt_lt_iff {magnitude other : Nat} (number : magnitude ≤ infiniteMagnitude)
    (otherNumber : other ≤ infiniteMagnitude) :
    placeAt magnitude < placeAt other ↔ magnitude < other := by
  have increasing : StrictMonoOn placeAt (Set.Iic infiniteMagnitude) := by
    intro left _ right rightNumber less
    have finite : left < infiniteMagnitude := less.trans_le rightNumber
    rw [placeAt, placeAt, if_pos finite]
    split
    · exact EReal.coe_lt_coe_iff.mpr (sizeAt_strictMono less)
    · exact EReal.coe_lt_top _
  exact increasing.lt_iff_lt number otherNumber

theorem placeAt_zero : placeAt 0 = 0 := by
  rw [placeAt, if_pos (by decide), sizeAt_zero, EReal.coe_zero]

private theorem placeAt_nonneg {magnitude : Nat} (number : magnitude ≤ infiniteMagnitude) :
    0 ≤ placeAt magnitude := by
  rw [← placeAt_zero, ← not_lt, placeAt_lt_iff number (Nat.zero_le _)]
  exact Nat.not_lt_zero magnitude

/-- A place on the negative side is before one on the positive side, except that zero is on both. -/
theorem neg_placeAt_lt_iff {magnitude other : Nat} (number : magnitude ≤ infiniteMagnitude)
    (otherNumber : other ≤ infiniteMagnitude) :
    -placeAt magnitude < placeAt other ↔ ¬ (magnitude = 0 ∧ other = 0) := by
  constructor
  · rintro less ⟨rfl, rfl⟩
    rw [placeAt_zero, neg_zero] at less
    exact lt_irrefl _ less
  · intro notBoth
    rcases Nat.eq_zero_or_pos magnitude with rfl | positive
    · have otherPositive : 0 < other := Nat.pos_of_ne_zero fun zero => notBoth ⟨rfl, zero⟩
      have ahead := (placeAt_lt_iff number otherNumber).mpr otherPositive
      rw [placeAt_zero] at ahead ⊢
      rwa [neg_zero]
    · have ahead := (placeAt_lt_iff (Nat.zero_le _) number).mpr positive
      rw [placeAt_zero] at ahead
      have behind : -placeAt magnitude < 0 := by
        rwa [← neg_zero, EReal.neg_lt_neg_iff]
      exact behind.trans_le (placeAt_nonneg otherNumber)

/-! Sign and magnitude -/

/-- The pattern with this sign and magnitude. -/
def pattern (negative : Bool) (magnitude : Nat) : Nat :=
  (if negative then signWeight else 0) + magnitude

/-- The place of a number with this sign and magnitude on the line. -/
noncomputable def signedPlace (negative : Bool) (magnitude : Nat) : EReal :=
  if negative then -placeAt magnitude else placeAt magnitude

private theorem signedPlace_zero (negative : Bool) : signedPlace negative 0 = 0 := by
  rw [signedPlace, placeAt_zero, neg_zero, ite_self]

private theorem exists_pattern {bits : Nat} (pattern64 : bits < 2 * signWeight) :
    ∃ negative magnitude, magnitude < signWeight ∧ bits = pattern negative magnitude := by
  by_cases sign : signWeight ≤ bits
  · exact ⟨true, bits - signWeight, by omega, (Nat.add_sub_cancel' sign).symm⟩
  · exact ⟨false, bits, Nat.lt_of_not_le sign, (Nat.zero_add bits).symm⟩

section Pattern

variable {negative : Bool} {magnitude : Nat} (small : magnitude < signWeight)
include small

private theorem isNegative_pattern : isNegative (pattern negative magnitude) = negative := by
  cases negative
  · simp [isNegative, pattern, small]
  · simp [isNegative, pattern]

private theorem keyOfBits_pattern :
    keyOfBits (pattern negative magnitude) =
      if negative then -(magnitude : Int) - 1 else magnitude := by
  unfold keyOfBits pattern
  cases negative
  · simp [small]
  · simp

omit small in
private theorem fraction_pattern :
    pattern negative magnitude % exponentWeight = magnitude % exponentWeight := by
  unfold pattern signWeight exponentWeight
  split <;> omega

private theorem linePlace?_pattern :
    linePlace? (pattern negative magnitude) =
      if magnitude ≤ infiniteMagnitude then
        some (signedPlace negative magnitude)
      else none := by
  obtain ⟨field, fraction, smallField, smallFraction, rfl⟩ :
      ∃ field fraction, field < 2 ^ 11 ∧ fraction < 2 ^ 52 ∧
        magnitude = field * 2 ^ 52 + fraction := by
    unfold signWeight at small
    exact ⟨magnitude / 2 ^ 52, magnitude % 2 ^ 52, by omega, by omega, by omega⟩
  have whole : pattern negative (field * 2 ^ 52 + fraction) =
      (if negative then 2 ^ 63 else 0) + field * 2 ^ 52 + fraction := by
    rw [pattern, Nat.add_assoc]
    rfl
  rw [linePlace?, whole, ofBits_fields negative smallField smallFraction]
  by_cases full : field = fullField
  · rw [if_pos full]
    subst full
    by_cases noFraction : fraction = 0
    · subst noFraction
      have infinite : fullField * 2 ^ 52 + 0 = infiniteMagnitude := rfl
      rw [infinite, if_pos rfl, if_pos (Nat.le_refl _), signedPlace, placeAt,
        if_neg (Nat.lt_irrefl _), EReal.neg_top]
    · have beyond : ¬ fullField * 2 ^ 52 + fraction ≤ infiniteMagnitude := by
        unfold infiniteMagnitude exponentWeight
        omega
      rw [if_neg noFraction, if_neg beyond]
  · have finite : field * 2 ^ 52 + fraction < infiniteMagnitude := by
      unfold infiniteMagnitude exponentWeight fullField at *
      omega
    have size : sizeAt (field * 2 ^ 52 + fraction) = finiteSize field fraction := by
      unfold sizeAt exponentWeight
      congr 1 <;> omega
    rw [if_neg full, if_pos finite.le, signedPlace, placeAt, if_pos finite, size,
      finiteSize]
    by_cases zero : field = 0
    · simp only [if_pos zero]
      cases negative <;> simp
    · simp only [if_neg zero]
      cases negative <;> simp

private theorem linePlace?_of_le (negative : Bool) (number : magnitude ≤ infiniteMagnitude) :
    linePlace? (pattern negative magnitude) = some (signedPlace negative magnitude) := by
  rw [linePlace?_pattern small, if_pos number]

private theorem linePlace?_of_lt (negative : Bool) (beyond : infiniteMagnitude < magnitude) :
    linePlace? (pattern negative magnitude) = none := by
  rw [linePlace?_pattern small, if_neg beyond.not_ge]

theorem linePlace?_eq_some_iff {place : EReal} :
    linePlace? (pattern negative magnitude) = some place ↔
      magnitude ≤ infiniteMagnitude ∧
        signedPlace negative magnitude = place := by
  rw [linePlace?_pattern small]
  split
  · next number => simp [number]
  · next beyond => simp [beyond]

theorem linePlace?_eq_none_iff :
    linePlace? (pattern negative magnitude) = none ↔ infiniteMagnitude < magnitude := by
  rw [linePlace?_pattern small]
  split
  · next number => simp [number]
  · next beyond => simpa using beyond

/-- Beyond the infinite magnitude the fraction alone counts. -/
theorem fraction_lt_iff {other : Nat} (otherSmall : other < signWeight)
    (beyond : infiniteMagnitude < magnitude) (otherBeyond : infiniteMagnitude < other) :
    magnitude % exponentWeight < other % exponentWeight ↔ magnitude < other := by
  unfold infiniteMagnitude fullField exponentWeight signWeight at *
  omega

end Pattern

/-! The key -/

section Key

variable {negative otherNegative : Bool} {magnitude otherMagnitude : Nat}
  (small : magnitude < signWeight) (otherSmall : otherMagnitude < signWeight)
include small otherSmall

theorem keyOfBits_lt_iff :
    keyOfBits (pattern negative magnitude) < keyOfBits (pattern otherNegative otherMagnitude) ↔
      if negative then otherNegative = true → otherMagnitude < magnitude
      else otherNegative = false ∧ magnitude < otherMagnitude := by
  rw [keyOfBits_pattern small, keyOfBits_pattern otherSmall]
  cases negative with
  | true =>
      cases otherNegative with
      | true => simp
      | false => simp
  | false =>
      cases otherNegative with
      | true => simp; omega
      | false => simp

/-- Numbers are on the line in the order of their keys, except that two zeros are in one place. -/
theorem signedPlace_lt_iff (number : magnitude ≤ infiniteMagnitude)
    (otherNumber : otherMagnitude ≤ infiniteMagnitude) :
    signedPlace negative magnitude < signedPlace otherNegative otherMagnitude ↔
      keyOfBits (pattern negative magnitude) < keyOfBits (pattern otherNegative otherMagnitude) ∧
        ¬ (magnitude = 0 ∧ otherMagnitude = 0) := by
  rw [keyOfBits_lt_iff small otherSmall]
  cases negative with
  | true =>
      cases otherNegative with
      | true =>
          simp [signedPlace, placeAt_lt_iff otherNumber number]
          omega
      | false =>
          simp [signedPlace, neg_placeAt_lt_iff number otherNumber]
  | false =>
      cases otherNegative with
      | true =>
          have below := EReal.neg_le_neg_iff.mpr (placeAt_nonneg otherNumber)
          rw [neg_zero] at below
          simp [signedPlace, below.trans (placeAt_nonneg number)]
      | false =>
          simp [signedPlace, placeAt_lt_iff number otherNumber]
          omega

private theorem keyOfBits_lt_of_precedes
    (precedes : Precedes (pattern negative magnitude) (pattern otherNegative otherMagnitude)) :
    keyOfBits (pattern negative magnitude) < keyOfBits (pattern otherNegative otherMagnitude) := by
  cases precedes with
  | numbers place otherPlace less =>
      obtain ⟨number, rfl⟩ := (linePlace?_eq_some_iff small).mp place
      obtain ⟨otherNumber, rfl⟩ := (linePlace?_eq_some_iff otherSmall).mp otherPlace
      exact ((signedPlace_lt_iff small otherSmall number otherNumber).mp less).1
  | zeros _ _ sign otherSign | aroundNumbers _ _ sign otherSign =>
      rw [isNegative_pattern small] at sign
      rw [isNegative_pattern otherSmall] at otherSign
      rw [keyOfBits_lt_iff small otherSmall]
      simp [sign, otherSign]
  | belowNumbers noPlace sign otherPlace =>
      rw [isNegative_pattern small] at sign
      have beyond := (linePlace?_eq_none_iff small).mp noPlace
      obtain ⟨otherNumber, _⟩ := (linePlace?_eq_some_iff otherSmall).mp otherPlace
      rw [keyOfBits_lt_iff small otherSmall, if_pos sign]
      exact fun _ => otherNumber.trans_lt beyond
  | aboveNumbers place noPlace sign =>
      rw [isNegative_pattern otherSmall] at sign
      have beyond := (linePlace?_eq_none_iff otherSmall).mp noPlace
      obtain ⟨number, _⟩ := (linePlace?_eq_some_iff small).mp place
      rw [keyOfBits_lt_iff small otherSmall]
      simp [sign, number.trans_lt beyond]
  | furtherBelow noPlace otherNoPlace sign _ less =>
      rw [isNegative_pattern small] at sign
      have beyond := (linePlace?_eq_none_iff small).mp noPlace
      have otherBeyond := (linePlace?_eq_none_iff otherSmall).mp otherNoPlace
      rw [fraction_pattern, fraction_pattern,
        fraction_lt_iff otherSmall small otherBeyond beyond] at less
      rw [keyOfBits_lt_iff small otherSmall, if_pos sign]
      exact fun _ => less
  | furtherAbove noPlace otherNoPlace sign otherSign less =>
      rw [isNegative_pattern small] at sign
      rw [isNegative_pattern otherSmall] at otherSign
      have beyond := (linePlace?_eq_none_iff small).mp noPlace
      have otherBeyond := (linePlace?_eq_none_iff otherSmall).mp otherNoPlace
      rw [fraction_pattern, fraction_pattern,
        fraction_lt_iff small otherSmall beyond otherBeyond] at less
      rw [keyOfBits_lt_iff small otherSmall]
      simp [sign, otherSign, less]

private theorem precedes_of_keyOfBits_lt
    (before : keyOfBits (pattern negative magnitude) <
      keyOfBits (pattern otherNegative otherMagnitude)) :
    Precedes (pattern negative magnitude) (pattern otherNegative otherMagnitude) := by
  have less := (keyOfBits_lt_iff small otherSmall).mp before
  rcases Nat.lt_or_ge infiniteMagnitude magnitude with beyond | number
  · have noPlace := linePlace?_of_lt small negative beyond
    rcases Nat.lt_or_ge infiniteMagnitude otherMagnitude with otherBeyond | otherNumber
    · have otherNoPlace := linePlace?_of_lt otherSmall otherNegative otherBeyond
      cases negative with
      | true =>
          cases otherNegative with
          | true =>
              refine .furtherBelow noPlace otherNoPlace (isNegative_pattern small)
                (isNegative_pattern otherSmall) ?_
              rw [fraction_pattern, fraction_pattern,
                fraction_lt_iff otherSmall small otherBeyond beyond]
              exact less rfl
          | false =>
              exact .aroundNumbers noPlace otherNoPlace (isNegative_pattern small)
                (isNegative_pattern otherSmall)
      | false =>
          obtain ⟨rfl, less⟩ := less
          refine .furtherAbove noPlace otherNoPlace (isNegative_pattern small)
            (isNegative_pattern otherSmall) ?_
          rwa [fraction_pattern, fraction_pattern,
            fraction_lt_iff small otherSmall beyond otherBeyond]
    · have otherPlace := linePlace?_of_le otherSmall otherNegative otherNumber
      cases negative with
      | true => exact .belowNumbers noPlace (isNegative_pattern small) otherPlace
      | false => exact absurd (less.2.trans_le otherNumber) beyond.asymm
  · have place := linePlace?_of_le small negative number
    rcases Nat.lt_or_ge infiniteMagnitude otherMagnitude with otherBeyond | otherNumber
    · have otherNoPlace := linePlace?_of_lt otherSmall otherNegative otherBeyond
      cases otherNegative with
      | true =>
          cases negative with
          | true => exact absurd ((less rfl).trans_le number) otherBeyond.asymm
          | false => cases less.1
      | false => exact .aboveNumbers place otherNoPlace (isNegative_pattern otherSmall)
    · have otherPlace := linePlace?_of_le otherSmall otherNegative otherNumber
      by_cases zeros : magnitude = 0 ∧ otherMagnitude = 0
      · -- two zeros are in one place, and the signs decide
        obtain ⟨rfl, rfl⟩ := zeros
        rw [signedPlace_zero] at place otherPlace
        cases negative with
        | true =>
            cases otherNegative with
            | true => exact absurd (less rfl) (Nat.lt_irrefl 0)
            | false =>
                exact .zeros place otherPlace (isNegative_pattern small)
                  (isNegative_pattern otherSmall)
        | false => exact absurd less.2 (Nat.lt_irrefl 0)
      · exact .numbers place otherPlace
          ((signedPlace_lt_iff small otherSmall number otherNumber).mpr ⟨before, zeros⟩)

end Key

/-- The key gives the order of all patterns of 64 bits. -/
theorem precedes_iff_keyOfBits_lt {bits other : Nat} (pattern64 : bits < 2 * signWeight)
    (otherPattern64 : other < 2 * signWeight) :
    Precedes bits other ↔ keyOfBits bits < keyOfBits other := by
  obtain ⟨negative, magnitude, small, rfl⟩ := exists_pattern pattern64
  obtain ⟨otherNegative, otherMagnitude, otherSmall, rfl⟩ := exists_pattern otherPattern64
  exact ⟨keyOfBits_lt_of_precedes small otherSmall, precedes_of_keyOfBits_lt small otherSmall⟩

theorem keyOfBits_inj {bits other : Nat} : keyOfBits bits = keyOfBits other ↔ bits = other := by
  unfold keyOfBits
  split <;> split <;> omega

end SnippetAudit.Decimal
