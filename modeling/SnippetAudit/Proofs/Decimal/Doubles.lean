import Mathlib
import SnippetAudit.Decimal.Binary
import SnippetAudit.Proofs.Decimal.Rounding

/-!
Doubles by their three fields: sign, exponent field and fraction.

The reading of a double as sign, mantissa and power of two loses nothing: a double is finite exactly
when it has such a reading, and it is the double that is packed from it. Mathlib is imported whole
because no part of it brings the lemmas on packed doubles.
-/

set_option autoImplicit false

namespace SnippetAudit.Decimal

open Float.Model Float.Model.UnpackedFloat

/-! Fields -/

/-- The sign as it is told apart by readings. -/
def signOf (negative : Bool) : Sign :=
  if negative then .negative else .positive

private theorem toNat_packComponents (negative : Bool) (field : BitVec 11) (fraction : BitVec 52) :
    (packComponents Format.binary64 (signOf negative) field fraction).toNat =
      (if negative then 2 ^ 63 else 0) + field.toNat * 2 ^ 52 + fraction.toNat := by
  have small := fraction.isLt
  have smallField := field.isLt
  simp only [packComponents, BitVec.toNat_append]
  rw [← Nat.shiftLeft_add_eq_or_of_lt small, ← Nat.shiftLeft_add_eq_or_of_lt smallField]
  cases negative
  · simp [signOf, Sign.toBitVec, Nat.shiftLeft_eq]
  · simp [signOf, Sign.toBitVec, Nat.shiftLeft_eq]
    omega

/-- Any 64 bits are packed from three fields. -/
theorem exists_packComponents (bits : BitVec 64) :
    ∃ (negative : Bool) (field : BitVec 11) (fraction : BitVec 52),
      bits = packComponents Format.binary64 (signOf negative) field fraction := by
  have fields := @packComponents_unpackSign_unpackExponent_unpackMantissa Format.binary64 bits
  cases sign : Sign.ofBitVec (@unpackSign Format.binary64 bits) with
  | negative =>
      rw [sign] at fields
      exact ⟨true, _, _, fields.symm⟩
  | positive =>
      rw [sign] at fields
      exact ⟨false, _, _, fields.symm⟩

theorem ofBits_fields (negative : Bool) {field fraction : Nat} (smallField : field < 2 ^ 11)
    (small : fraction < 2 ^ 52) :
    Reading.ofBits ((if negative then 2 ^ 63 else 0) + field * 2 ^ 52 + fraction) =
      if field = fullField then
        if fraction = 0 then .infinite negative else .notANumber
      else if field = 0 then
        .finite { negative, mantissa := fraction, exponent := -1074, isLowest := false }
      else
        .finite
          { negative
            mantissa := exponentWeight + fraction
            exponent := (field : Int) - 1075
            isLowest := fraction = 0 && field ≠ 1 } := by
  generalize bits : (if negative then 2 ^ 63 else 0) + field * 2 ^ 52 + fraction = all
  have signAt : decide (all / signWeight % 2 = 1) = negative := by
    unfold signWeight
    cases negative
    · exact decide_eq_false (by simp at bits; omega)
    · exact decide_eq_true (by simp at bits; omega)
  have fieldAt : all / exponentWeight % (fullField + 1) = field := by
    unfold exponentWeight fullField
    split at bits <;> omega
  have fractionAt : all % exponentWeight = fraction := by
    unfold exponentWeight
    split at bits <;> omega
  simp only [Reading.ofBits, signAt, fieldAt, fractionAt]

theorem ofBits_packComponents (negative : Bool) (field : BitVec 11) (fraction : BitVec 52) :
    Reading.ofBits (packComponents Format.binary64 (signOf negative) field fraction).toNat =
      if field.toNat = fullField then
        if fraction.toNat = 0 then .infinite negative else .notANumber
      else if field.toNat = 0 then
        .finite { negative, mantissa := fraction.toNat, exponent := -1074, isLowest := false }
      else
        .finite
          { negative
            mantissa := exponentWeight + fraction.toNat
            exponent := (field.toNat : Int) - 1075
            isLowest := fraction.toNat = 0 && field.toNat ≠ 1 } := by
  rw [toNat_packComponents, ofBits_fields negative field.isLt fraction.isLt]

private theorem isFinite_unpack (negative : Bool) (field : BitVec 11) (fraction : BitVec 52) :
    (UnpackedFloat.unpack Format.binary64
        (packComponents Format.binary64 (signOf negative) field fraction)).isFinite =
      decide (field.toNat ≠ fullField) := by
  have full : field = -1#11 ↔ field.toNat = fullField := BitVec.toNat_inj.symm
  simp only [UnpackedFloat.unpack, unpackExponent_packComponents, unpackMantissa_packComponents,
    full]
  by_cases special : field.toNat = fullField
  · simp only [special, ↓reduceIte, ne_eq, not_true_eq_false, decide_false]
    split <;> rfl
  · simp only [special, ↓reduceIte, ne_eq, not_false_eq_true, decide_true]
    split
    · split <;> rfl
    · rfl

/-! Packing -/

theorem pack_of_full {mantissa : Nat} {exponent : Int} (sign : Sign)
    (canonical : Canonical mantissa exponent) (full : 2 ^ 52 ≤ mantissa) :
    UnpackedFloat.pack Format.binary64 (.finite sign mantissa exponent canonical.positive) =
      packComponents Format.binary64 sign (.ofNat 11 (exponent + 1075).toNat)
        (.ofNat 52 mantissa) := by
  obtain ⟨positive, fits, lowest, highest, _⟩ := canonical
  have bits : mantissa.log2 = 52 := (Nat.log2_eq_iff positive.ne').mpr ⟨full, fits⟩
  have field : (exponent + 1023 + 52).toNat = (exponent + 1075).toNat := by omega
  have inRange : ¬ 2048 ≤ (exponent + 1075).toNat + 1 := by omega
  simp [UnpackedFloat.pack, Format.exponentBias, Format.mantissaBits, bits, field, inRange]

theorem pack_of_subnormal {mantissa : Nat} (sign : Sign) (positive : 0 < mantissa)
    (small : mantissa < 2 ^ 52) :
    UnpackedFloat.pack Format.binary64 (.finite sign mantissa (-1074) positive) =
      packComponents Format.binary64 sign 0#11 (.ofNat 52 mantissa) := by
  have bits : mantissa.log2 + 1 ≠ 53 := by
    have := (Nat.log2_lt positive.ne').mpr small
    omega
  simp [UnpackedFloat.pack, Format.exponentBias, Format.mantissaBits, bits]

/-- Unpacking what was packed gives it back. -/
theorem unpack_pack {mantissa : Nat} {exponent : Int} (negative : Bool)
    (canonical : Canonical mantissa exponent) :
    UnpackedFloat.unpack Format.binary64 (UnpackedFloat.pack Format.binary64
        (.finite (signOf negative) mantissa exponent canonical.positive)) =
      .finite (signOf negative) mantissa exponent canonical.positive := by
  have fits := canonical.fits
  have lowest := canonical.lowest
  have highest := canonical.highest
  by_cases full : 2 ^ 52 ≤ mantissa
  · have field : (BitVec.ofNat 11 (exponent + 1075).toNat).toNat = (exponent + 1075).toNat := by
      rw [BitVec.toNat_ofNat]
      omega
    have notFull : BitVec.ofNat 11 (exponent + 1075).toNat ≠ -1#11 :=
      mt (congrArg BitVec.toNat) (by rw [field]; change _ ≠ 2047; omega)
    have notZero : BitVec.ofNat 11 (exponent + 1075).toNat ≠ 0#11 :=
      mt (congrArg BitVec.toNat) (by rw [field]; change _ ≠ 0; omega)
    have whole : (1#1 ++ BitVec.ofNat 52 mantissa).toNat = mantissa := by
      rw [BitVec.toNat_append, ← Nat.shiftLeft_add_eq_or_of_lt (BitVec.isLt _), BitVec.toNat_ofNat]
      change 2 ^ 52 + mantissa % 2 ^ 52 = mantissa
      omega
    rw [pack_of_full _ canonical full]
    simp only [UnpackedFloat.unpack, unpackExponent_packComponents, unpackMantissa_packComponents,
      unpackSign_packComponents, Sign.ofBitVec_toBitVec, if_neg notFull, if_neg notZero, field,
      whole]
    congr 1
    simp [Format.exponentBias]
    omega
  · obtain rfl := canonical.full.resolve_left full
    have fraction : (BitVec.ofNat 52 mantissa).toNat = mantissa := by
      rw [BitVec.toNat_ofNat]
      omega
    have notZero : BitVec.ofNat 52 mantissa ≠ 0#52 :=
      mt (congrArg BitVec.toNat) (by rw [fraction]; exact canonical.positive.ne')
    rw [pack_of_subnormal _ canonical.positive (by omega)]
    simp only [UnpackedFloat.unpack, unpackExponent_packComponents, unpackMantissa_packComponents,
      unpackSign_packComponents, Sign.ofBitVec_toBitVec, fraction]
    rw [if_neg (by decide), if_pos trivial, dif_neg notZero]
    rfl

/-- The double with this sign, mantissa and exponent. -/
def double {mantissa : Nat} {exponent : Int} (negative : Bool)
    (canonical : Canonical mantissa exponent) : Float :=
  .ofModel (.pack (.finite (signOf negative) mantissa exponent canonical.positive))

theorem toBitVec_double {mantissa : Nat} {exponent : Int} (negative : Bool)
    (canonical : Canonical mantissa exponent) :
    (double negative canonical).toBits.toBitVec =
      UnpackedFloat.pack Format.binary64
        (.finite (signOf negative) mantissa exponent canonical.positive) := rfl

theorem unpack_double {mantissa : Nat} {exponent : Int} (negative : Bool)
    (canonical : Canonical mantissa exponent) :
    (double negative canonical).toModel.unpack =
      .finite (signOf negative) mantissa exponent canonical.positive :=
  unpack_pack negative canonical

theorem isInf_double {mantissa : Nat} {exponent : Int} (negative : Bool)
    (canonical : Canonical mantissa exponent) : (double negative canonical).isInf = false := by
  change (double negative canonical).toModel.unpack.isInf = false
  rw [unpack_double]
  rfl

theorem neg_double {mantissa : Nat} {exponent : Int} (canonical : Canonical mantissa exponent) :
    -double false canonical = double true canonical := by
  change Float.ofModel (.pack (double false canonical).toModel.unpack.neg) = _
  rw [unpack_double]
  rfl

/-! Readings -/

theorem eq_of_toBitVec {x y : Float} (same : x.toBits.toBitVec = y.toBits.toBitVec) : x = y :=
  Float.toBits_inj.mp (UInt64.toBitVec_inj.mp same)

/-- A double is finite exactly when it has a reading with a mantissa. -/
theorem isFinite_iff (x : Float) :
    x.isFinite = true ↔ ∃ value, Reading.ofFloat x = .finite value := by
  obtain ⟨negative, field, fraction, bits⟩ := exists_packComponents x.toBits.toBitVec
  have finite : x.isFinite = decide (field.toNat ≠ fullField) := by
    rw [← isFinite_unpack negative field fraction, ← bits]
    rfl
  rw [finite, decide_eq_true_eq, Reading.ofFloat, ← UInt64.toNat_toBitVec, bits,
    ofBits_packComponents]
  constructor
  · intro regular
    rw [if_neg regular]
    split <;> exact ⟨_, rfl⟩
  · rintro ⟨value, reading⟩ special
    rw [if_pos special] at reading
    split at reading <;> cases reading

/-- What holds of the reading of a double that is not zero. -/
structure Dyadic.Proper (value : Dyadic) : Prop where
  canonical : Canonical value.mantissa value.exponent
  lowest : value.isLowest = true ↔ value.mantissa = 2 ^ 52 ∧ value.exponent ≠ -1074

/-- The fields of a double that has a reading with a mantissa. -/
theorem exists_fields {x : Float} {value : Dyadic} (reading : Reading.ofFloat x = .finite value) :
    ∃ (negative : Bool) (field : BitVec 11) (fraction : BitVec 52),
      x.toBits.toBitVec = packComponents Format.binary64 (signOf negative) field fraction ∧
        field.toNat ≠ fullField ∧
        value =
          if field.toNat = 0 then
            { negative, mantissa := fraction.toNat, exponent := -1074, isLowest := false }
          else
            { negative
              mantissa := exponentWeight + fraction.toNat
              exponent := (field.toNat : Int) - 1075
              isLowest := fraction.toNat = 0 && field.toNat ≠ 1 } := by
  obtain ⟨negative, field, fraction, bits⟩ := exists_packComponents x.toBits.toBitVec
  refine ⟨negative, field, fraction, bits, ?_⟩
  rw [Reading.ofFloat, ← UInt64.toNat_toBitVec, bits, ofBits_packComponents] at reading
  split at reading
  · split at reading <;> cases reading
  · rename_i regular
    refine ⟨regular, ?_⟩
    split at reading <;> cases reading <;> rename_i zero
    · rw [if_pos zero]
    · rw [if_neg zero]

/-- A double that is not zero is packed from its reading. -/
theorem exists_double {x : Float} {value : Dyadic} (reading : Reading.ofFloat x = .finite value)
    (nonzero : value.mantissa ≠ 0) :
    ∃ proper : value.Proper, x = double value.negative proper.canonical := by
  obtain ⟨negative, field, fraction, bits, regular, rfl⟩ := exists_fields reading
  have smallField := field.isLt
  have small := fraction.isLt
  by_cases zero : field.toNat = 0
  · simp only [if_pos zero] at nonzero ⊢
    have canonical : Canonical fraction.toNat (-1074) :=
      ⟨Nat.pos_of_ne_zero nonzero, by omega, by omega, by omega, .inr rfl⟩
    refine ⟨⟨canonical, by simp⟩, eq_of_toBitVec ?_⟩
    have noField : field = 0#11 := BitVec.eq_of_toNat_eq zero
    rw [bits, toBitVec_double, pack_of_subnormal _ _ small, BitVec.ofNat_toNat, noField]
    simp
  · simp only [if_neg zero]
    have canonical :
        Canonical (exponentWeight + fraction.toNat) ((field.toNat : Int) - 1075) := by
      unfold exponentWeight fullField at *
      exact ⟨by omega, by omega, by omega, by omega, .inl (by omega)⟩
    refine ⟨⟨canonical, ?_⟩, eq_of_toBitVec ?_⟩
    · simp only [Bool.and_eq_true, decide_eq_true_eq, exponentWeight]
      omega
    · have sameField : BitVec.ofNat 11 ((field.toNat : Int) - 1075 + 1075).toNat = field := by
        simp
      have sameFraction : BitVec.ofNat 52 (exponentWeight + fraction.toNat) = fraction := by
        apply BitVec.eq_of_toNat_eq
        rw [BitVec.toNat_ofNat, exponentWeight]
        omega
      rw [bits, toBitVec_double, pack_of_full _ canonical (by simp [exponentWeight]), sameField,
        sameFraction]

/-- A double with no mantissa is one of the two zeros. -/
theorem eq_zero_of_reading {x : Float} {value : Dyadic}
    (reading : Reading.ofFloat x = .finite value) (noMantissa : value.mantissa = 0) :
    x = if value.negative then -0.0 else 0.0 := by
  obtain ⟨negative, field, fraction, bits, _, rfl⟩ := exists_fields reading
  by_cases zero : field.toNat = 0
  · simp only [if_pos zero] at noMantissa ⊢
    obtain rfl : field = 0#11 := BitVec.eq_of_toNat_eq zero
    obtain rfl : fraction = 0#52 := BitVec.eq_of_toNat_eq noMantissa
    apply eq_of_toBitVec
    rw [bits]
    cases negative <;> decide +kernel
  · simp [if_neg zero, exponentWeight] at noMantissa

end SnippetAudit.Decimal
