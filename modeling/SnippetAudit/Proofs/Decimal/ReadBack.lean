import SnippetAudit.Proofs.Decimal.Shortest
import SnippetAudit.Proofs.Json.Writing

/-!
Doubles are spelled so that they are read back.

A numeral stands for its digits times a power of ten. Reading rounds that number to the double it
is close to, and the spelling of a double stands for a decimal that is close to it; so every finite
double is read back as itself, the two zeros and the least doubles included.
-/

set_option autoImplicit false

namespace SnippetAudit

namespace Numeral

open Decimal

/-! Digits -/

theorem valueOf_append (left right : List Char) :
    valueOf (left ++ right) = valueOf left * 10 ^ right.length + valueOf right := by
  induction right using List.reverseRecOn with
  | nil => simp [valueOf]
  | append_singleton right c ih =>
      have last : ∀ digits : List Char,
          valueOf (digits ++ [c]) = 10 * valueOf digits + (c.toNat - 48) := by
        intro digits
        simp [valueOf]
      rw [← List.append_assoc, last, last, ih, List.length_append, List.length_singleton,
        Nat.pow_succ]
      ring

theorem valueOf_digitsOf (n : Nat) : valueOf (digitsOf n) = n :=
  Nat.ofDigitChars_ten_toDigits

theorem valueOf_zeros (count : Nat) : valueOf (List.replicate count '0') = 0 := by
  induction count with
  | zero => rfl
  | succ count ih =>
      rw [List.replicate_succ', valueOf_append, ih]
      rfl

theorem digitsOf_isDigit {n : Nat} {c : Char} (member : c ∈ digitsOf n) : c.isDigit = true :=
  Nat.isDigit_of_mem_toDigits (by decide) (by decide) member

theorem digits_digitsOf (n : Nat) : Json.Digits (digitsOf n) :=
  ⟨Nat.toDigits_ne_nil, fun _ => digitsOf_isDigit⟩

/-- The digits of a positive number do not start with zero. -/
theorem head?_digitsOf {n : Nat} (positive : 0 < n) : (digitsOf n).head? ≠ some '0' := by
  induction n using Nat.strongRecOn with
  | ind n ih =>
      unfold digitsOf at ih ⊢
      by_cases small : n < 10
      · rw [Nat.toDigits_of_lt_base small]
        simp
        omega
      · rw [Nat.toDigits_of_base_le (by decide) (by omega),
          List.head?_append_of_ne_nil _ Nat.toDigits_ne_nil]
        exact ih (n / 10) (by omega) (by omega)

/-! Reading -/

/-- All digits of a numeral as one number. -/
def digits (numeral : Numeral) : Nat :=
  valueOf (numeral.whole ++ numeral.fraction)

/-- The power of ten by which the digits are scaled. -/
def power (numeral : Numeral) : Int :=
  let exponent : Int :=
    match numeral.exponent with
    | none => 0
    | some (negative, digits) => if negative then -(valueOf digits : Int) else valueOf digits
  exponent - numeral.fraction.length

private theorem toFloat?_eq (numeral : Numeral) :
    numeral.toFloat? =
      Option.map (fun value => if numeral.negative then -value else value)
        (if numeral.digits = 0 || numeral.power + digitCount numeral.digits < -farPlaces then
          some 0.0
        else if farPlaces < numeral.power + digitCount numeral.digits then none
        else
          let value := Float.ofScientific numeral.digits (numeral.power < 0) numeral.power.natAbs
          if value.isInf then none else some value) := rfl

/-- A numeral is read as the double that it is close to. -/
theorem toFloat?_of_close {numeral : Numeral} {mantissa : Nat} {exponent : Int}
    (canonical : Canonical mantissa exponent)
    (close : Close mantissa exponent (numeral.digits * 10 ^ numeral.power)) :
    numeral.toFloat? = some (double numeral.negative canonical) := by
  have positive := close.digits_pos canonical
  obtain ⟨near, notFar⟩ := close.places canonical
  have inRange : ¬ (numeral.digits = 0 ||
      numeral.power + digitCount numeral.digits < -farPlaces) = true := by
    simp only [Bool.or_eq_true, decide_eq_true_eq]
    unfold farPlaces
    omega
  rw [toFloat?_eq, if_neg inRange, if_neg (by unfold farPlaces; omega)]
  simp only [ofScientific_eq canonical close, isInf_double]
  cases numeral.negative with
  | false => rfl
  | true =>
      change some (-double false canonical) = _
      rw [neg_double]

/-! Spelling -/

/-- The four forms of a spelling: with an exponent, as a whole number, with the point among the
digits, and with the point before them. -/
theorem ofScaled_forms (negative : Bool) (scaled : Scaled) {text : List Char} {leading : Int}
    (textIs : digitsOf scaled.digits = text)
    (leadingIs : scaled.power + text.length - 1 = leading) :
    (ofScaled negative scaled =
      { negative, whole := text.take 1, fraction := text.drop 1,
        exponent := some (leading < 0, digitsOf leading.natAbs) }) ∨
    (0 ≤ scaled.power ∧ ofScaled negative scaled =
      { negative, whole := text ++ List.replicate scaled.power.toNat '0', fraction := ['0'] }) ∨
    (scaled.power < 0 ∧ 0 ≤ leading ∧ ofScaled negative scaled =
      { negative, whole := text.take (leading.toNat + 1),
        fraction := text.drop (leading.toNat + 1) }) ∨
    (leading < 0 ∧ ofScaled negative scaled =
      { negative, whole := ['0'],
        fraction := List.replicate ((-leading).toNat - 1) '0' ++ text }) := by
  subst textIs leadingIs
  by_cases far : (scaled.power + (digitsOf scaled.digits).length - 1 < lowestPositional ||
      highestPositional < scaled.power + (digitsOf scaled.digits).length - 1) = true
  · exact .inl (if_pos far)
  · by_cases whole : 0 ≤ scaled.power
    · exact .inr (.inl ⟨whole, (if_neg far).trans (if_pos whole)⟩)
    · by_cases inside : 0 ≤ scaled.power + (digitsOf scaled.digits).length - 1
      · exact .inr (.inr (.inl ⟨by omega, inside,
          (if_neg far).trans ((if_neg whole).trans (if_pos inside))⟩))
      · exact .inr (.inr (.inr ⟨by omega,
          (if_neg far).trans ((if_neg whole).trans (if_neg inside))⟩))

private theorem negative_ofScaled (negative : Bool) (scaled : Scaled) :
    (ofScaled negative scaled).negative = negative := by
  rcases ofScaled_forms negative scaled rfl rfl with form | ⟨_, form⟩ | ⟨_, _, form⟩ | ⟨_, form⟩ <;>
    rw [form]

/-- A spelling stands for the decimal that is spelled. -/
theorem ofScaled_value (negative : Bool) (scaled : Scaled) :
    ((ofScaled negative scaled).digits : ℚ) * 10 ^ (ofScaled negative scaled).power =
      scaled.digits * 10 ^ scaled.power := by
  have long : 0 < (digitsOf scaled.digits).length := Nat.length_toDigits_pos
  have value := valueOf_digitsOf scaled.digits
  generalize textIs : digitsOf scaled.digits = text at *
  generalize leadingIs : scaled.power + text.length - 1 = leading
  rcases ofScaled_forms negative scaled textIs leadingIs with
    form | ⟨whole, form⟩ | ⟨fractional, inside, form⟩ | ⟨before, form⟩
  · have power : (if (leading < 0 : Bool) then -(leading.natAbs : Int) else leading.natAbs) -
        (text.length - 1 : Nat) = scaled.power := by
      simp only [decide_eq_true_eq]
      split <;> omega
    simp only [form, digits, Numeral.power, List.take_append_drop, value, valueOf_digitsOf,
      List.length_drop, power]
  · have power : scaled.power = scaled.power.toNat := by omega
    have zeros :
        (ofScaled negative scaled).digits = scaled.digits * 10 ^ (scaled.power.toNat + 1) := by
      simp only [form, digits, valueOf_append, valueOf_zeros, value, List.length_replicate]
      change (_ + 0) * 10 ^ 1 + 0 = _
      ring
    have point : (ofScaled negative scaled).power = -1 := by rw [form]; rfl
    have scale : (10 : ℚ) ^ scaled.power = 10 ^ scaled.power.toNat := by
      rw [← zpow_natCast, ← power]
    rw [zeros, point, scale, zpow_neg_one]
    push_cast
    rw [pow_succ]
    field_simp
  · have power : (0 : Int) - (text.length - (leading.toNat + 1) : Nat) = scaled.power := by omega
    simp only [form, digits, Numeral.power, List.take_append_drop, value, List.length_drop, power]
  · have power : (0 : Int) - (((-leading).toNat - 1 : Nat) + text.length : Nat) = scaled.power := by
      omega
    have zero : valueOf ['0'] = 0 := rfl
    simp only [form, digits, Numeral.power, valueOf_append, valueOf_zeros, zero, value,
      List.length_append, List.length_replicate, power, Nat.zero_mul, Nat.zero_add]

theorem isDigit_of_mem_zeros {count : Nat} {c : Char} (member : c ∈ List.replicate count '0') :
    c.isDigit = true := by
  rw [List.eq_of_mem_replicate member]
  rfl

private theorem wholeDigits_of_head? {text : List Char} (digits : Json.Digits text)
    (start : text.head? ≠ some '0') : Json.WholeDigits text :=
  ⟨digits, fun zero => absurd zero start⟩

theorem wholeDigits_zero : Json.WholeDigits ['0'] :=
  ⟨⟨by simp, @isDigit_of_mem_zeros 1⟩, fun _ => rfl⟩

theorem wholeDigits_digitsOf (n : Nat) : Json.WholeDigits (digitsOf n) := by
  cases n with
  | zero => exact wholeDigits_zero
  | succ n => exact wholeDigits_of_head? (digits_digitsOf _) (head?_digitsOf (Nat.succ_pos n))

/-- The first digits of a text of digits, if that does not start with zero. -/
theorem wholeDigits_take {text : List Char} (digits : Json.Digits text)
    (start : text.head? ≠ some '0') (count : Nat) : Json.WholeDigits (text.take (count + 1)) := by
  obtain ⟨nonempty, all⟩ := digits
  apply wholeDigits_of_head?
  · refine ⟨?_, fun c member => all c (List.mem_of_mem_take member)⟩
    simp [nonempty]
  · rw [List.head?_take]
    simpa using start

/-- The spelling of a decimal that is not zero is well-formed. -/
theorem ofScaled_wellFormed (negative : Bool) {scaled : Scaled} (positive : 0 < scaled.digits) :
    (ofScaled negative scaled).WellFormed := by
  have start := head?_digitsOf positive
  have digits := digits_digitsOf scaled.digits
  generalize textIs : digitsOf scaled.digits = text at *
  rcases ofScaled_forms negative scaled textIs rfl with
    form | ⟨whole, form⟩ | ⟨fractional, inside, form⟩ | ⟨before, form⟩ <;> rw [form]
  · refine ⟨wholeDigits_take digits start 0, ?_, ?_⟩
    · exact fun c member => digits.2 c (List.mem_of_mem_drop member)
    · rintro part ⟨⟩
      exact digits_digitsOf _
  · refine ⟨wholeDigits_of_head? ⟨?_, ?_⟩ ?_, @isDigit_of_mem_zeros 1, by simp⟩
    · simp [digits.1]
    · intro c member
      rcases List.mem_append.mp member with digit | zero
      · exact digits.2 c digit
      · exact isDigit_of_mem_zeros zero
    · rw [List.head?_append_of_ne_nil _ digits.1]
      exact start
  · refine ⟨wholeDigits_take digits start _, ?_, by simp⟩
    exact fun c member => digits.2 c (List.mem_of_mem_drop member)
  · refine ⟨wholeDigits_zero, ?_, by simp⟩
    intro c member
    rcases List.mem_append.mp member with zero | digit
    · exact isDigit_of_mem_zeros zero
    · exact digits.2 c digit

/-! Doubles -/

/-- A double has a spelling exactly when it is finite. -/
theorem ofFloat?_isSome_iff (x : Float) : (ofFloat? x).isSome = true ↔ x.isFinite = true := by
  rw [isFinite_iff]
  unfold ofFloat?
  split
  · rename_i value reading
    constructor
    · intro _
      exact ⟨value, reading⟩
    · intro _
      split <;> rfl
  · rename_i special
    constructor
    · intro impossible
      cases impossible
    · rintro ⟨value, reading⟩
      exact absurd reading (special value)

/-- What spells a double is well-formed, and is read back as that double. -/
theorem ofFloat?_readBack {x : Float} {numeral : Numeral} (spelled : ofFloat? x = some numeral) :
    numeral.WellFormed ∧ numeral.toFloat? = some x := by
  unfold ofFloat? at spelled
  split at spelled
  · rename_i value reading
    split at spelled
    · rename_i zero
      cases spelled
      refine ⟨⟨wholeDigits_zero, @isDigit_of_mem_zeros 1, by simp⟩, ?_⟩
      rw [eq_zero_of_reading reading zero]
      cases value.negative <;> rfl
    · rename_i nonzero
      cases spelled
      obtain ⟨proper, packed⟩ := exists_double reading nonzero
      have close := close_shortest proper
      refine ⟨ofScaled_wellFormed _ (close.digits_pos proper.canonical), ?_⟩
      rw [← ofScaled_value value.negative] at close
      rw [toFloat?_of_close proper.canonical close, negative_ofScaled, ← packed]
  · cases spelled

end Numeral

/-- A finite double is written as a number that is read back, any other one as null. -/
theorem Json.ofFloat_forms (x : Float) :
    (x.isFinite = true ∧ ∃ numeral : Numeral,
      Json.ofFloat x = .number numeral ∧ numeral.WellFormed ∧ numeral.toFloat? = some x) ∨
    (x.isFinite = false ∧ Json.ofFloat x = .null) := by
  have finite := Numeral.ofFloat?_isSome_iff x
  cases spelled : Numeral.ofFloat? x with
  | some numeral =>
      rw [spelled] at finite
      refine .inl ⟨finite.mp rfl, numeral, ?_, Numeral.ofFloat?_readBack spelled⟩
      rw [Json.ofFloat, spelled]
  | none =>
      rw [spelled] at finite
      refine .inr ⟨?_, ?_⟩
      · simpa using finite
      · rw [Json.ofFloat, spelled]

end SnippetAudit
