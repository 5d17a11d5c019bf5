import SnippetAudit.Proofs.Decimal.ReadBack
import SnippetAudit.Proofs.Instant.Calendar

/-!
Instants are read back from their text.

Every number of the text is padded to a width, and a reader takes as many digits as that width at
most, so each statement is about digits in front of a text that cannot continue them.
-/

set_option autoImplicit false

namespace SnippetAudit

/-! Digits -/

theorem Text.isWhite_of_isDigit {c : Char} (digit : c.isDigit = true) : Text.isWhite c = false := by
  simp only [Char.isDigit, Bool.and_eq_true, decide_eq_true_eq] at digit
  have low : 48 ≤ c.toNat := digit.1
  have high : c.toNat ≤ 57 := digit.2
  simp only [isWhite, inRanges, whiteRanges, List.any_cons, List.any_nil, Bool.or_false,
    Bool.or_eq_false_iff, Bool.and_eq_false_iff, decide_eq_false_iff_not]
  omega

theorem Text.trimStart_cons {c : Char} (solid : isWhite c = false) (rest : List Char) :
    trimStart (c :: rest) = c :: rest := by
  simp [trimStart, solid]

namespace Instant

private theorem trimStart_digits {digits : List Char} (proper : Json.Digits digits)
    (rest : List Char) : Text.trimStart (digits ++ rest) = digits ++ rest := by
  obtain ⟨nonempty, all⟩ := proper
  cases digits with
  | nil => exact absurd rfl nonempty
  | cons c digits => exact Text.trimStart_cons (Text.isWhite_of_isDigit (all c (by simp))) _

/-- A text that no digit continues. -/
def EndsDigits (text : List Char) : Prop :=
  ∀ c ∈ text.head?, c.isDigit = false

private theorem takeWhile_digits {digits rest : List Char} (all : ∀ c ∈ digits, c.isDigit = true)
    (ends : EndsDigits rest) : (digits ++ rest).takeWhile Char.isDigit = digits :=
  congrArg Prod.fst (Json.splitDigits_append all ends)

/-- Digits are read up to the first other character, or up to the greatest number of them. -/
theorem readDigits_append {most : Nat} {digits rest : List Char} (proper : Json.Digits digits)
    (short : digits.length ≤ most) (ends : digits.length = most ∨ EndsDigits rest) :
    readDigits most (digits ++ rest) = some (Numeral.valueOf digits, rest) := by
  have taken : ((digits ++ rest).take most).takeWhile Char.isDigit = digits := by
    rw [List.take_append, List.take_of_length_le short]
    apply takeWhile_digits proper.2
    cases ends with
    | inl full =>
        intro c first
        simp [full] at first
    | inr ends =>
        intro c first
        cases rest with
        | nil => simp at first
        | cons other rest =>
            cases places : most - digits.length with
            | zero => simp [places] at first
            | succ left =>
                simp only [places, List.take_succ_cons, List.head?_cons] at first
                exact ends c first
  have nonempty : digits.isEmpty = false := by simp [proper.1]
  simp only [readDigits, taken, nonempty, List.drop_left]
  rfl

private theorem digits_padded (width n : Nat) : Json.Digits (padded width n) := by
  refine ⟨by simp [padded, (Numeral.digits_digitsOf n).1], ?_⟩
  intro c member
  rcases List.mem_append.mp member with zero | digit
  · exact Numeral.isDigit_of_mem_zeros zero
  · exact Numeral.digitsOf_isDigit digit

@[simp] theorem valueOf_padded (width n : Nat) : Numeral.valueOf (padded width n) = n := by
  rw [padded, Numeral.valueOf_append, Numeral.valueOf_zeros, Nat.zero_mul, Nat.zero_add,
    Numeral.valueOf_digitsOf]

theorem length_padded {width n : Nat} (positive : 0 < width) (fits : n < 10 ^ width) :
    (padded width n).length = width := by
  have short : (Numeral.digitsOf n).length ≤ width := Nat.toDigits_length 10 n width positive fits
  simp only [padded, List.length_append, List.length_replicate]
  omega

/-! The parts of the text -/

private theorem readBounded_padded {least greatest n : Nat} (above : least ≤ n)
    (below : n ≤ greatest) (fits : n < 100) (rest : List Char) :
    readBounded least greatest (padded 2 n ++ rest) = some (n, rest) := by
  have width : (padded 2 n).length = 2 := length_padded (by decide) fits
  rw [readBounded, trimStart_digits (digits_padded 2 n),
    readDigits_append (digits_padded 2 n) width.le (.inl width)]
  simp [above, below]

theorem readSign_cons {sign : Char} (solid : Text.isWhite sign = false) (rest : List Char) :
    readSign sign (sign :: rest) = some rest := by
  simp [readSign, Text.trimStart_cons solid]

private theorem readYear_digits {digits : List Char} (proper : Json.Digits digits)
    (width : digits.length = 4) (rest : List Char) :
    readYear (digits ++ rest) = some ((Numeral.valueOf digits : Int), rest) := by
  have read := @readDigits_append 4 digits rest proper width.le (.inl width)
  rw [readYear, trimStart_digits proper]
  cases digits with
  | nil => cases width
  | cons c digits =>
      have digit : c.isDigit = true := proper.2 c (by simp)
      simp only [List.cons_append] at read ⊢
      split
      · next same => cases same; cases digit
      · next same => cases same; cases digit
      · rw [read, Option.map_some]

/-- A year is read back with its sign, up to the one that follows it. -/
theorem readYear_yearText (year : Int) (rest : List Char) :
    readYear (yearText year ++ '-' :: rest) = some (year, '-' :: rest) := by
  have ends : EndsDigits ('-' :: rest) := by
    intro c first
    cases first
    rfl
  have proper := digits_padded 4 year.natAbs
  have read : readDigits (padded 4 year.natAbs ++ '-' :: rest).length
      (padded 4 year.natAbs ++ '-' :: rest) = some (year.natAbs, '-' :: rest) := by
    rw [readDigits_append proper (by simp) (.inr ends), valueOf_padded]
  unfold yearText
  split_ifs with negative large
  · have value : -(year.natAbs : Int) = year := by omega
    rw [readYear, List.cons_append, Text.trimStart_cons (by decide)]
    simp only [read, Option.map_some, value]
  · have value : (year.natAbs : Int) = year := by omega
    rw [readYear, List.cons_append, Text.trimStart_cons (by decide)]
    simp only [read, Option.map_some, value]
  · have value : (year.natAbs : Int) = year := by omega
    rw [readYear_digits proper (length_padded (by decide) (by omega)), valueOf_padded, value]

private theorem readNanos_digits {digits rest : List Char} (proper : Json.Digits digits)
    (short : digits.length ≤ 9) (ends : EndsDigits rest) :
    readNanos ('.' :: (digits ++ rest)) =
      some (Numeral.valueOf digits * 10 ^ (9 - digits.length), rest) := by
  have nonempty : digits.isEmpty = false := by simp [proper.1]
  simp only [readNanos, takeWhile_digits proper.2 ends, List.take_of_length_le short, nonempty,
    List.drop_left]
  rfl

private theorem readNanos_fractionText {nanos : Nat} (bounded : nanos < 1000000000)
    {rest : List Char} (ends : EndsDigits rest) (noPoint : rest.head? ≠ some '.') :
    readNanos (fractionText nanos ++ rest) = some (nanos, rest) := by
  have groups : ∀ {width n : Nat}, 0 < width → width ≤ 9 → n < 10 ^ width →
      readNanos ('.' :: padded width n ++ rest) = some (n * 10 ^ (9 - width), rest) := by
    intro width n positive short fits
    have length := length_padded positive fits
    rw [List.cons_append, readNanos_digits (digits_padded width n) (by omega) ends,
      valueOf_padded, length]
  unfold fractionText
  split_ifs with zero millis micros
  · rw [List.nil_append, zero]
    cases rest with
    | nil => rfl
    | cons c rest =>
        rw [readNanos]
        rintro tail ⟨⟩
        exact noPoint rfl
  · rw [groups (by decide) (by decide) (by omega)]
    congr 2
    omega
  · rw [groups (by decide) (by decide) (by omega)]
    congr 2
    omega
  · rw [groups (by decide) (by decide) (by omega)]
    simp

/-! Instants -/

/-- An instant with a year that a date may have. Only the last second of a minute is followed by a
leap second. -/
structure Valid (instant : Instant) : Prop where
  year : firstYear ≤ (dateOf (instant.seconds / 86400)).1 ∧
    (dateOf (instant.seconds / 86400)).1 ≤ lastYear
  nanos : instant.nanos < 1000000000 ∨
    instant.nanos < 2000000000 ∧ instant.seconds % 60 = 59

/-- The text of a date and a time in UTC. -/
def partsText (year : Int) (month day hour minute second nanos : Nat) : List Char :=
  yearText year ++ '-' :: (padded 2 month ++ '-' :: (padded 2 day ++ 'T' :: (padded 2 hour ++
    ':' :: (padded 2 minute ++ ':' :: (padded 2 second ++ (fractionText nanos ++ ['Z']))))))

private theorem ofText?_partsText {year : Int} {month day hour minute second nanos : Nat}
    (date : IsDate year month day) (hours : hour ≤ 23) (minutes : minute ≤ 59)
    (seconds : second ≤ 60) (bounded : nanos < 1000000000) :
    ofText? (partsText year month day hour minute second nanos) =
      ofLocal? year month day hour minute second nanos 0 := by
  have month_le := date.month_le
  have day_le := date.day_le_31
  have dash : ∀ rest, readSign '-' ('-' :: rest) = some rest := readSign_cons (by decide)
  have colon : ∀ rest, readSign ':' (':' :: rest) = some rest := readSign_cons (by decide)
  have ends : EndsDigits ['Z'] := by
    intro c first
    cases first
    rfl
  have zone : readOffset (Text.trimStart ['Z']) = some (0, []) := rfl
  have taken : ∀ {α β : Type} (value : α) (next : α → Option β),
      (some value >>= next) = next value := fun _ _ => rfl
  unfold ofText? partsText
  rw [readYear_yearText, taken]
  dsimp only
  rw [dash, taken, readBounded_padded date.month_pos month_le (by omega), taken]
  dsimp only
  rw [dash, taken, readBounded_padded date.day_pos day_le (by omega), taken]
  dsimp only
  rw [if_pos (by decide), taken, readBounded_padded (Nat.zero_le hour) hours (by omega), taken]
  dsimp only
  rw [colon, taken, readBounded_padded (Nat.zero_le minute) minutes (by omega), taken]
  dsimp only
  rw [colon, taken, readBounded_padded (Nat.zero_le second) seconds (by omega), taken]
  dsimp only
  rw [readNanos_fractionText bounded ends (by decide), taken, zone, taken]
  exact if_pos rfl

private theorem ofLocal?_dateOf {instant : Instant} (valid : instant.Valid) :
    let date := dateOf (instant.seconds / 86400)
    let second := (instant.seconds % 86400).toNat
    let leap := 1000000000 ≤ instant.nanos
    ofLocal? date.1 date.2.1 date.2.2 (second / 3600) (second / 60 % 60)
        (second % 60 + if leap then 1 else 0)
        (if leap then instant.nanos - 1000000000 else instant.nanos) 0 = some instant := by
  intro date second leap
  obtain ⟨isDate, number⟩ := dateOf_isDate (instant.seconds / 86400)
  obtain ⟨years, nanos⟩ := valid
  have seconds : 86400 * dayNumber date.1 date.2.1 date.2.2 + 3600 * (second / 3600 : Nat) +
      60 * (second / 60 % 60 : Nat) + (second % 60 : Nat) - 0 = instant.seconds := by
    rw [number]
    omega
  have allowed : (firstYear ≤ date.1 && date.1 ≤ lastYear &&
      date.2.2 ≤ daysInMonth date.1 date.2.1 && firstYear ≤ date.1 && date.1 ≤ lastYear) =
        true := by
    simp [date, years, isDate.day_le]
  by_cases isLeap : leap
  · have last : second % 60 = 59 := by omega
    have back : instant.nanos - 1000000000 + 1000000000 = instant.nanos := by omega
    simp only [last] at seconds
    simp only [ofLocal?, isLeap, last, ↓reduceIte, seconds, back]
    exact if_pos allowed
  · have less : second % 60 ≠ 60 := by omega
    simp only [ofLocal?, isLeap, Nat.add_zero, ↓reduceIte, seconds, less]
    exact if_pos allowed

/-- Every instant that a date may have is read back from its text. -/
theorem ofText?_toText_of_valid {instant : Instant} (valid : instant.Valid) :
    ofText? instant.toText = some instant := by
  have nanos := valid.nanos
  rw [← ofLocal?_dateOf valid, ← ofText?_partsText]
  · simp only [toText, partsText, List.append_assoc, List.cons_append]
  · exact (dateOf_isDate _).1
  · omega
  · omega
  · split_ifs <;> omega
  · split_ifs <;> omega

end Instant

end SnippetAudit
