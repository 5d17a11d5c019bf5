import Mathlib.Data.List.DropRight
import SnippetAudit.Proofs.Json.Grammar

/-!
Every spelling of a value is read as that value.

The reader takes as much as it can of digits and blanks, so each statement is about a spelling in
front of a text that cannot continue it. The budget of the reader is never the reason for a
refusal: twice the length of the spelling is enough.
-/

set_option autoImplicit false

namespace SnippetAudit.Json

/-! Blanks -/

theorem skipBlanks_append {blanks : List Char} (blank : Blanks blanks) (rest : List Char) :
    skipBlanks (blanks ++ rest) = skipBlanks rest :=
  List.dropWhile_append_of_pos blank

theorem skipBlanks_cons {c : Char} (solid : isBlank c = false) (rest : List Char) :
    skipBlanks (c :: rest) = c :: rest := by
  simp [skipBlanks, solid]

/-- Blanks are skipped up to the first character that is not one. -/
theorem skipBlanks_upTo {blanks : List Char} (blank : Blanks blanks) {c : Char}
    (solid : isBlank c = false) (rest : List Char) :
    skipBlanks (blanks ++ c :: rest) = c :: rest := by
  rw [skipBlanks_append blank, skipBlanks_cons solid]

private theorem skipBlanks_skipBlanks (text : List Char) :
    skipBlanks (skipBlanks text) = skipBlanks text :=
  List.dropWhile_idempotent ..

/-! Strings -/

private theorem hexValue?_of_hexDigit {value : Nat} {c : Char} (digit : HexDigit value c) :
    hexValue? c = some value := by
  have table : ∀ value < 16,
      hexValue? (hexChar value) = some value ∧ hexValue? (hexChar value).toUpper = some value := by
    decide
  obtain ⟨bounded, rfl | rfl⟩ := digit
  · exact (table value bounded).1
  · exact (table value bounded).2

private theorem unit?_of_hexDigits {unit : Nat} {a b c d : Char} (bounded : unit < 0x10000)
    (first : HexDigit (unit / 0x1000) a) (second : HexDigit (unit / 0x100 % 16) b)
    (third : HexDigit (unit / 0x10 % 16) c) (fourth : HexDigit (unit % 16) d) :
    unit? a b c d = some unit := by
  simp only [unit?, hexValue?_of_hexDigit first, hexValue?_of_hexDigit second,
    hexValue?_of_hexDigit third, hexValue?_of_hexDigit fourth, Option.bind_eq_bind,
    Option.bind_some, Option.pure_def, Option.some.injEq]
  omega

/-- A character is no half of a surrogate pair. -/
theorem not_surrogate (c : Char) : isHighUnit c.toNat = false ∧ isLowUnit c.toNat = false := by
  have outside : c.toNat < 0xD800 ∨ 0xDFFF < c.toNat := by
    rcases c.valid with low | ⟨high, _⟩
    · exact .inl low
    · exact .inr high
  simp only [isHighUnit, isLowUnit, Bool.and_eq_false_iff, decide_eq_false_iff_not]
  omega

private theorem isHighUnit_highUnit (c : Char) : isHighUnit (highUnit c) = true := by
  have small : c.toNat < 0x110000 := by
    rcases c.valid with low | ⟨_, high⟩
    · exact Nat.lt_trans low (by decide)
    · exact high
  simp only [isHighUnit, Bool.and_eq_true, decide_eq_true_eq]
  unfold highUnit
  omega

private theorem isLowUnit_lowUnit (c : Char) :
    isLowUnit (lowUnit c) = true ∧ isHighUnit (lowUnit c) = false := by
  simp only [isLowUnit, isHighUnit, Bool.and_eq_true, Bool.and_eq_false_iff, decide_eq_true_eq,
    decide_eq_false_iff_not]
  unfold lowUnit
  omega

private theorem pairChar_units {c : Char} (wide : 0x10000 ≤ c.toNat) :
    pairChar (highUnit c) (lowUnit c) = c := by
  have sum : 0x10000 + 0x400 * (highUnit c - 0xD800) + (lowUnit c - 0xDC00) = c.toNat := by
    simp only [highUnit, lowUnit]
    omega
  rw [pairChar, sum, Char.ofNat_toNat]

/-- One step of the reader for each way to write a character. -/
theorem readQuoted_spelled {c : Char} {head : List Char} (spelled : SpellsChar c head)
    (done rest : List Char) :
    readQuoted (some done) none (head ++ rest) = readQuoted (some (c :: done)) none rest := by
  cases spelled with
  | plain visible noQuote noEscape =>
      rw [List.singleton_append, readQuoted]
      · have shown : ¬ c.toNat < 32 := by omega
        simp only [shown, ↓reduceIte, settled, Option.isNone_none, Option.map_some]
      all_goals grind
  | letter listed =>
      simp only [letterEscapes, List.mem_cons, List.not_mem_nil, or_false,
        Prod.mk.injEq] at listed
      rcases listed with ⟨rfl, rfl⟩ | ⟨rfl, rfl⟩ | ⟨rfl, rfl⟩ | ⟨rfl, rfl⟩ | ⟨rfl, rfl⟩ |
        ⟨rfl, rfl⟩ | ⟨rfl, rfl⟩ | ⟨rfl, rfl⟩ <;> simp [readQuoted, escaped?, settled]
  | unit narrow digits =>
      obtain ⟨bounded, first, second, third, fourth⟩ := digits
      obtain ⟨notHigh, notLow⟩ := not_surrogate c
      simp [readQuoted, unit?_of_hexDigits bounded first second third fourth, notHigh, notLow,
        settled]
  | pair wide high low =>
      obtain ⟨boundedHigh, high1, high2, high3, high4⟩ := high
      obtain ⟨boundedLow, low1, low2, low3, low4⟩ := low
      obtain ⟨isLow, notHigh⟩ := isLowUnit_lowUnit c
      simp [readQuoted, unit?_of_hexDigits boundedHigh high1 high2 high3 high4,
        unit?_of_hexDigits boundedLow low1 low2 low3 low4, isHighUnit_highUnit, notHigh,
        isLow, settled, pairChar_units wide]

private theorem readQuoted_spelledChars {chars text : List Char} (spelled : SpellsChars chars text)
    (done rest : List Char) :
    readQuoted (some done) none (text ++ '"' :: rest) =
      some (some (done.reverse ++ chars), rest) := by
  induction spelled generalizing done with
  | nil => simp [readQuoted, settled]
  | cons first _ ih =>
      rw [List.append_assoc, readQuoted_spelled first, ih]
      simp

/-! Numbers -/

/-- A text that cannot continue a number: it is empty or starts with no digit, point or mark of an
exponent. -/
def EndsNumber (text : List Char) : Prop :=
  ∀ c ∈ text.head?, c.isDigit = false ∧ c ≠ '.' ∧ c ≠ 'e' ∧ c ≠ 'E'

theorem splitDigits_append {digits rest : List Char} (all : ∀ c ∈ digits, c.isDigit = true)
    (ends : ∀ c ∈ rest.head?, c.isDigit = false) :
    splitDigits (digits ++ rest) = (digits, rest) := by
  have stops : rest.takeWhile Char.isDigit = [] ∧ rest.dropWhile Char.isDigit = rest := by
    cases rest with
    | nil => exact ⟨rfl, rfl⟩
    | cons c rest => simp [ends c (by simp)]
  rw [splitDigits, List.takeWhile_append_of_pos all, List.dropWhile_append_of_pos all, stops.1,
    stops.2, List.append_nil]

private theorem readFraction_spelled {fraction text rest : List Char}
    (spelled : SpellsFraction fraction text)
    (ends : ∀ c ∈ rest.head?, c.isDigit = false ∧ c ≠ '.') :
    readFraction (text ++ rest) = some (fraction, rest) := by
  cases spelled with
  | absent =>
      cases rest with
      | nil => rfl
      | cons c rest =>
          have noPoint := (ends c (by simp)).2
          simp [readFraction, noPoint]
  | present digits =>
      simp [readFraction, splitDigits_append digits.2 fun c member => (ends c member).1, digits.1]

private theorem splitSign_spelled {negative : Bool} {sign digits rest : List Char}
    (spelled : SpellsSign negative sign) (proper : Digits digits) :
    splitSign (sign ++ (digits ++ rest)) = (negative, digits ++ rest) := by
  cases spelled with
  | absent =>
      obtain ⟨nonempty, all⟩ := proper
      cases digits with
      | nil => exact absurd rfl nonempty
      | cons c digits =>
          have digit := all c (by simp)
          have noMinus : c ≠ '-' := by rintro rfl; simp at digit
          have noPlus : c ≠ '+' := by rintro rfl; simp at digit
          simp [splitSign, noMinus, noPlus]
  | plus => rfl
  | minus => rfl

private theorem readExponent_spelled {exponent : Option (Bool × List Char)} {text rest : List Char}
    (spelled : SpellsExponent exponent text) (ends : EndsNumber rest) :
    readExponent (text ++ rest) = some (exponent, rest) := by
  cases spelled with
  | absent =>
      cases rest with
      | nil => rfl
      | cons c rest =>
          obtain ⟨_, _, noSmall, noLarge⟩ := ends c (by simp)
          simp [readExponent, noSmall, noLarge]
  | present mark sign digits =>
      simp [readExponent, mark, splitSign_spelled sign digits,
        splitDigits_append digits.2 fun c member => (ends c member).1, digits.1]

/-- What follows the digits before the point is no digit. -/
theorem SpellsFraction.ends {fraction text rest : List Char}
    (spelled : SpellsFraction fraction text) (ends : ∀ c ∈ rest.head?, c.isDigit = false) :
    ∀ c ∈ (text ++ rest).head?, c.isDigit = false := by
  cases spelled with
  | absent => exact ends
  | present digits => simp

/-- What follows the fraction is neither a digit nor a point. -/
theorem SpellsExponent.ends {exponent : Option (Bool × List Char)} {text rest : List Char}
    (spelled : SpellsExponent exponent text) (ends : EndsNumber rest) :
    ∀ c ∈ (text ++ rest).head?, c.isDigit = false ∧ c ≠ '.' := by
  cases spelled with
  | absent => exact fun c member => ⟨(ends c member).1, (ends c member).2.1⟩
  | present mark => rcases mark with rfl | rfl <;> simp

private theorem readNumeral_spelled {numeral : Numeral} {text rest : List Char}
    (spelled : SpellsNumeral numeral text) (ends : EndsNumber rest) :
    readNumeral (text ++ rest) = some (numeral, rest) := by
  obtain ⟨negative, whole, fraction, exponent⟩ := numeral
  cases spelled with
  | @parts fractionText exponentText wholeDigits fractionSpelled exponentSpelled =>
      obtain ⟨⟨nonempty, all⟩, leading⟩ := wholeDigits
      simp only at nonempty all leading fractionSpelled exponentSpelled
      have split : splitDigits (whole ++ (fractionText ++ (exponentText ++ rest))) =
          (whole, fractionText ++ (exponentText ++ rest)) :=
        splitDigits_append all
          (fractionSpelled.ends fun c member => (exponentSpelled.ends ends c member).1)
      have fractionRead := readFraction_spelled fractionSpelled (exponentSpelled.ends ends)
      have exponentRead := readExponent_spelled exponentSpelled ends
      have short : whole.head? = some '0' → whole.length = 1 := fun zero => by
        rw [leading zero]; rfl
      cases negative with
      | true => simpa [readNumeral, split, nonempty, fractionRead, exponentRead] using short
      | false =>
          cases whole with
          | nil => exact absurd rfl nonempty
          | cons c whole =>
              have digit := all c (by simp)
              have noMinus : c ≠ '-' := by rintro rfl; simp at digit
              simp only [List.cons_append] at split
              simpa [readNumeral, noMinus, split, fractionRead, exponentRead] using short

/-! Values -/

theorem readValue_skipBlanks (budget : Nat) (text : List Char) :
    readValue budget (skipBlanks text) = readValue budget text := by
  cases budget with
  | zero => simp only [readValue]
  | succ budget => simp only [readValue, skipBlanks_skipBlanks]

theorem readItems_skipBlanks (budget : Nat) (text : List Char) :
    readItems budget (skipBlanks text) = readItems budget text := by
  cases budget with
  | zero => simp only [readItems]
  | succ budget => simp only [readItems, readValue_skipBlanks]

theorem readMembers_skipBlanks (budget : Nat) (text : List Char) :
    readMembers budget (skipBlanks text) = readMembers budget text := by
  cases budget with
  | zero => simp only [readMembers]
  | succ budget => simp only [readMembers, skipBlanks_skipBlanks]

/-- A character that a number may start with. -/
def StartsNumber (c : Char) : Prop :=
  c = '-' ∨ c.isDigit = true

theorem readValue_number {budget : Nat} {text rest : List Char} {c : Char}
    (skipped : skipBlanks text = c :: rest) (starts : StartsNumber c) :
    readValue (budget + 1) text =
      (readNumeral (c :: rest)).map fun (numeral, rest) => (.number numeral, rest) := by
  rw [readValue, skipped]
  have others : c ≠ 'n' ∧ c ≠ 't' ∧ c ≠ 'f' ∧ c ≠ '"' ∧ c ≠ '[' ∧ c ≠ '\x7b' := by
    refine ⟨?_, ?_, ?_, ?_, ?_, ?_⟩ <;> rintro rfl <;> simp [StartsNumber] at starts
  split <;> simp_all

theorem SpellsNumeral.starts {numeral : Numeral} {text : List Char}
    (spelled : SpellsNumeral numeral text) :
    ∃ c tail, text = c :: tail ∧ StartsNumber c := by
  obtain ⟨⟨⟨nonempty, all⟩, _⟩, _, _⟩ := spelled
  cases numeral.negative with
  | true => exact ⟨_, _, rfl, .inl rfl⟩
  | false =>
      obtain ⟨c, whole, same⟩ := List.exists_cons_of_ne_nil nonempty
      rw [same]
      exact ⟨_, _, rfl, .inr (all c (by simp [same]))⟩

/-- A spelling starts with a character that is neither blank nor a closing bracket. -/
theorem Spells.starts {value : Json} {text : List Char} (spelled : Spells value text) :
    ∃ c tail, text = c :: tail ∧ isBlank c = false ∧ c ≠ ']' := by
  cases spelled with
  | number numeral =>
      obtain ⟨c, tail, rfl, rfl | digit⟩ := numeral.starts
      · exact ⟨_, _, rfl, by decide, by decide⟩
      · refine ⟨_, _, rfl, ?_, ?_⟩
        · cases blank : isBlank c with
          | false => rfl
          | true =>
              simp only [isBlank, Bool.or_eq_true, decide_eq_true_eq] at blank
              rcases blank with ((rfl | rfl) | rfl) | rfl <;> simp at digit
        · rintro rfl
          simp at digit
  | string quoted =>
      cases quoted
      exact ⟨_, _, rfl, by decide, by decide⟩
  | _ => exact ⟨_, _, rfl, by decide, by decide⟩

theorem Spells.skipBlanks_append {value : Json} {text : List Char} (spelled : Spells value text)
    (rest : List Char) : skipBlanks (text ++ rest) = text ++ rest := by
  obtain ⟨c, tail, rfl, solid, _⟩ := spelled.starts
  exact skipBlanks_cons solid _

theorem SpellsPadded.skipBlanks_append {value : Json} {text : List Char}
    (spelled : SpellsPadded value text) (rest : List Char) :
    ∃ c tail, skipBlanks (text ++ rest) = c :: tail ∧ c ≠ ']' := by
  obtain ⟨before, inner, _⟩ := spelled
  obtain ⟨c, tail, rfl, solid, notClosed⟩ := inner.starts
  rw [List.append_assoc, Json.skipBlanks_append before, List.append_assoc, List.cons_append,
    skipBlanks_cons solid]
  exact ⟨_, _, rfl, notClosed⟩

theorem SpellsItems.skipBlanks_append {items : List Json} {text : List Char}
    (spelled : SpellsItems items text) (rest : List Char) :
    ∃ c tail, skipBlanks (text ++ rest) = c :: tail ∧ c ≠ ']' := by
  cases spelled with
  | last item => exact item.skipBlanks_append rest
  | more item items =>
      rw [List.append_assoc]
      exact item.skipBlanks_append _

theorem SpellsMembers.skipBlanks_append {members : List (String × Json)} {text : List Char}
    (spelled : SpellsMembers members text) (rest : List Char) :
    ∃ tail, skipBlanks (text ++ rest) = '"' :: tail := by
  cases spelled with
  | last before key =>
      cases key
      rw [List.append_assoc, Json.skipBlanks_append before]
      exact ⟨_, skipBlanks_cons (by decide) _⟩
  | more before key =>
      cases key
      rw [List.append_assoc, Json.skipBlanks_append before]
      exact ⟨_, skipBlanks_cons (by decide) _⟩

theorem Blanks.endsNumber {blanks rest : List Char} (blank : Blanks blanks)
    (ends : EndsNumber rest) : EndsNumber (blanks ++ rest) := by
  cases blanks with
  | nil => exact ends
  | cons c blanks =>
      have first := blank c (by simp)
      simp only [isBlank, Bool.or_eq_true, decide_eq_true_eq] at first
      rcases first with ((rfl | rfl) | rfl) | rfl <;> simp [EndsNumber]

/-- A key is read with its colon, whatever blanks stand between them. -/
theorem readKey_spelled {key : String} {text blanks : List Char}
    (spelled : SpellsChars key.toList text) (blank : Blanks blanks) (rest : List Char) :
    readKey (text ++ '"' :: (blanks ++ ':' :: rest)) = some (some key, rest) := by
  have colon : isBlank ':' = false := by decide
  simp only [readKey, readQuoted_spelledChars spelled, skipBlanks_upTo blank colon]
  simp

theorem readValue_array {budget : Nat} {text tail : List Char} {c : Char}
    (inner : skipBlanks text = c :: tail) (notClosed : c ≠ ']') :
    readValue (budget + 1) ('[' :: text) =
      (readItems budget text).map fun (items, rest) => (.array items, rest) := by
  rw [← readItems_skipBlanks, readValue, skipBlanks_cons (by decide)]
  simp [inner, notClosed]

theorem readValue_object {budget : Nat} {text tail : List Char}
    (inner : skipBlanks text = '"' :: tail) :
    readValue (budget + 1) ('\x7b' :: text) =
      (readMembers budget text).map fun (members, rest) => (ofMembers members, rest) := by
  rw [← readMembers_skipBlanks, readValue, skipBlanks_cons (by decide)]
  simp [inner]

mutual

private theorem readValue_spelled {value : Json} {text : List Char} (spelled : Spells value text)
    (budget : Nat) (rest : List Char) (enough : 2 * text.length ≤ budget + 1)
    (ends : EndsNumber rest) : readValue (budget + 1) (text ++ rest) = some (value, rest) := by
  have skipped := spelled.skipBlanks_append rest
  match spelled with
  | .null => rw [readValue, skipped]; rfl
  | .boolTrue => rw [readValue, skipped]; rfl
  | .boolFalse => rw [readValue, skipped]; rfl
  | .number numeral =>
      obtain ⟨c, tail, rfl, starts⟩ := numeral.starts
      have read := readNumeral_spelled numeral ends
      rw [readValue_number skipped starts]
      exact congrArg _ read
  | .string quoted =>
      obtain ⟨chars⟩ := quoted
      rw [readValue, skipped]
      simp [readQuoted_spelledChars chars, ofQuoted]
  | .emptyArray blank =>
      have closed : isBlank ']' = false := by decide
      rw [readValue, skipped]
      simp [skipBlanks_upTo blank closed]
  | .array items =>
      obtain ⟨c, tail, inner, notClosed⟩ := items.skipBlanks_append (']' :: rest)
      have read := readItems_spelled items budget rest (by simp at enough; omega)
      rw [List.cons_append, List.append_assoc, List.singleton_append,
        readValue_array inner notClosed, read]
      rfl
  | .emptyObject blank =>
      have closed : isBlank '\x7d' = false := by decide
      rw [readValue, skipped]
      simp [skipBlanks_upTo blank closed]
  | .object members =>
      obtain ⟨tail, inner⟩ := members.skipBlanks_append ('\x7d' :: rest)
      have read := readMembers_spelled members budget rest (by simp at enough; omega)
      rw [List.cons_append, List.append_assoc, List.singleton_append, readValue_object inner, read]
      rfl

private theorem readValue_padded {value : Json} {text : List Char}
    (spelled : SpellsPadded value text)
    (budget : Nat) (rest : List Char) (enough : 2 * text.length ≤ budget)
    (ends : EndsNumber rest) :
    ∃ blanks, Blanks blanks ∧ readValue budget (text ++ rest) = some (value, blanks ++ rest) := by
  match spelled with
  | .padded before inner after =>
      obtain ⟨less, rfl⟩ : ∃ less, budget = less + 1 := by
        obtain ⟨c, tail, rfl, _⟩ := inner.starts
        exact ⟨budget - 1, by simp at enough; omega⟩
      have read := readValue_spelled inner less _ (by simp at enough; omega)
        (after.endsNumber ends)
      refine ⟨_, after, ?_⟩
      rw [List.append_assoc, List.append_assoc, ← readValue_skipBlanks,
        Json.skipBlanks_append before, readValue_skipBlanks]
      exact read

private theorem readItems_spelled {items : List Json} {text : List Char}
    (spelled : SpellsItems items text) (budget : Nat) (rest : List Char)
    (enough : 2 * text.length < budget) :
    readItems budget (text ++ ']' :: rest) = some (items, rest) := by
  obtain ⟨less, rfl⟩ : ∃ less, budget = less + 1 := ⟨budget - 1, by omega⟩
  match spelled with
  | .last item =>
      have closed : isBlank ']' = false := by decide
      obtain ⟨blanks, blank, read⟩ :=
        readValue_padded item less (']' :: rest) (by omega) (by simp [EndsNumber])
      rw [readItems, read]
      simp [skipBlanks_upTo blank closed]
  | @SpellsItems.more _ _ text others item items =>
      have comma : isBlank ',' = false := by decide
      obtain ⟨blanks, blank, read⟩ :=
        readValue_padded item less (',' :: (others ++ ']' :: rest)) (by simp at enough; omega)
          (by simp [EndsNumber])
      have readOthers := readItems_spelled items less rest (by simp at enough; omega)
      rw [readItems, List.append_assoc, List.cons_append, read]
      simp [skipBlanks_upTo blank comma, readOthers]

private theorem readMembers_spelled {members : List (String × Json)} {text : List Char}
    (spelled : SpellsMembers members text) (budget : Nat) (rest : List Char)
    (enough : 2 * text.length < budget) :
    readMembers budget (text ++ '\x7d' :: rest) = some (some members, rest) := by
  obtain ⟨less, rfl⟩ : ∃ less, budget = less + 1 := ⟨budget - 1, by omega⟩
  have quote : isBlank '"' = false := by decide
  match spelled with
  | .last before quoted after value =>
      have closed : isBlank '\x7d' = false := by decide
      obtain ⟨key⟩ := quoted
      obtain ⟨blanks, blank, read⟩ :=
        readValue_padded value less ('\x7d' :: rest) (by simp at enough; omega)
          (by simp [EndsNumber])
      rw [readMembers]
      simp [skipBlanks_upTo before quote, readKey_spelled key after, read,
        skipBlanks_upTo blank closed, withMember]
  | @SpellsMembers.more _ _ _ _ _ _ text others before quoted after value members =>
      have comma : isBlank ',' = false := by decide
      obtain ⟨key⟩ := quoted
      obtain ⟨blanks, blank, read⟩ :=
        readValue_padded value less (',' :: (others ++ '\x7d' :: rest))
          (by simp at enough; omega) (by simp [EndsNumber])
      have readOthers := readMembers_spelled members less rest (by simp at enough; omega)
      rw [readMembers]
      simp [skipBlanks_upTo before quote, readKey_spelled key after, read,
        skipBlanks_upTo blank comma, readOthers, withMember]

end

/-- A text that spells a value is read as that value. -/
theorem read?_spelled {value : Json} {text : List Char} (spelled : SpellsPadded value text) :
    read? text = some value := by
  obtain ⟨blanks, blank, read⟩ :=
    readValue_padded spelled (2 * text.length + 2) [] (by omega) (by simp [EndsNumber])
  have nothing : skipBlanks blanks = [] := by
    rw [← List.append_nil blanks, skipBlanks_append blank]
    rfl
  rw [List.append_nil, List.append_nil] at read
  simp [read?, read, nothing]

end SnippetAudit.Json
