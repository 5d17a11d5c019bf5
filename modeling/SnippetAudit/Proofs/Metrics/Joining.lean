import SnippetAudit.Catalog.Builtin
import SnippetAudit.Metrics
import SnippetAudit.Proofs.Decimal.Quotients
import SnippetAudit.Proofs.Text.Lines

/-!
Measurements of two texts and of both, a line feed between them.

Lines and bytes add up. The average length of the lines is a mean rounded once, and rounding keeps
the order, so it is between those of the parts. Dividing as doubles gives the same average.
-/

set_option autoImplicit false

namespace SnippetAudit.Metrics

open Text (byteLength)

/-! Averages -/

section Average

variable {total count bound : Nat}

theorem le_average_iff (positive : 0 < count) :
    bound ≤ average total count ↔ bound * (2 * count) ≤ 2 * total + count := by
  rw [average, if_neg positive.ne', Nat.le_div_iff_mul_le (Nat.mul_pos two_pos positive)]

theorem average_le_iff (positive : 0 < count) :
    average total count ≤ bound ↔ 2 * total + count < (bound + 1) * (2 * count) := by
  rw [average, if_neg positive.ne', ← Nat.lt_succ_iff,
    Nat.div_lt_iff_lt_mul (Nat.mul_pos two_pos positive)]

private theorem average_eq_floor (total count : Nat) :
    average total count = ⌊(total : ℚ) / count + 1 / 2⌋₊ := by
  rw [average]
  split
  · next none =>
      subst none
      norm_num
  · next some =>
      have fraction : (total : ℚ) / count + 1 / 2 =
          (2 * total + count : Nat) / (2 * count : Nat) := by
        have : (count : ℚ) ≠ 0 := by exact_mod_cast some
        push_cast
        field_simp
      rw [fraction, Nat.floor_div_eq_div]

end Average

section Both

variable {total₁ count₁ total₂ count₂ : Nat} (positive₁ : 0 < count₁) (positive₂ : 0 < count₂)
include positive₁ positive₂

private theorem min_average_le_average_add :
    min (average total₁ count₁) (average total₂ count₂) ≤
      average (total₁ + total₂) (count₁ + count₂) := by
  have first := (le_average_iff positive₁).mp
    (Nat.min_le_left (average total₁ count₁) (average total₂ count₂))
  have second := (le_average_iff positive₂).mp
    (Nat.min_le_right (average total₁ count₁) (average total₂ count₂))
  rw [le_average_iff (Nat.add_pos_left positive₁ count₂)]
  linarith

private theorem average_add_le_max_average :
    average (total₁ + total₂) (count₁ + count₂) ≤
      max (average total₁ count₁) (average total₂ count₂) := by
  have first := (average_le_iff positive₁).mp
    (Nat.le_max_left (average total₁ count₁) (average total₂ count₂))
  have second := (average_le_iff positive₂).mp
    (Nat.le_max_right (average total₁ count₁) (average total₂ count₂))
  rw [average_le_iff (Nat.add_pos_left positive₁ count₂)]
  linarith

end Both

/-! Bytes -/

private theorem totalBytes_eq_sum (rows : List (List Char)) :
    totalBytes rows = (rows.map byteLength).sum := by
  rw [totalBytes, List.sum_eq_foldl, List.foldl_map]

theorem totalBytes_append (rows more : List (List Char)) :
    totalBytes (rows ++ more) = totalBytes rows + totalBytes more := by
  simp only [totalBytes_eq_sum, List.map_append, List.sum_append]

private theorem totalBytes_lines_le (text : List Char) :
    totalBytes (Text.lines text) ≤ byteLength text := by
  induction text using Text.lines_induction with
  | last line noFeed => simp [Text.lines_of_noFeed noFeed, totalBytes]
  | feed line rest noFeed ih =>
      rw [Text.lines_append_feed, Text.lines_of_noFeed noFeed, totalBytes_append,
        Text.byteLength_append, Text.byteLength_cons]
      simp only [totalBytes_eq_sum, List.map_singleton, List.sum_singleton] at ih ⊢
      omega

private theorem totalBytes_solidLines_le (text : List Char) :
    totalBytes (Text.solidLines text) ≤ byteLength text := by
  refine Nat.le_trans ?_ (totalBytes_lines_le text)
  rw [totalBytes_eq_sum, totalBytes_eq_sum]
  exact (List.filter_sublist.map byteLength).sum_le_sum fun _ _ => Nat.zero_le _

private theorem length_solidLines_le (text : List Char) :
    (Text.solidLines text).length ≤ totalBytes (Text.solidLines text) := by
  rw [totalBytes_eq_sum, ← List.length_map byteLength]
  -- The empty line is blank, so each of these lines has a byte at least.
  apply List.length_le_sum_of_one_le
  intro size member
  obtain ⟨line, solid, rfl⟩ := List.mem_map.mp member
  have nonempty : line ≠ [] := by
    intro empty
    subst empty
    exact absurd (List.mem_filter.mp solid).2 (by decide)
  exact Nat.le_trans (List.length_pos_of_ne_nil nonempty) (Text.length_le_byteLength line)

/-! Both texts -/

/-- The average as it is divided in doubles. -/
def averageInDoubles? (total count : Nat) : Option Nat :=
  if count = 0 then some 0 else Decimal.roundedQuotient? total count

private theorem averageInDoubles?_eq {total count : Nat} (atLeast : count ≤ total)
    (small : total < 2 ^ 52) : averageInDoubles? total count = some (average total count) := by
  rw [averageInDoubles?, average]
  split
  · rfl
  · next some => exact Decimal.roundedQuotient?_eq (Nat.pos_of_ne_zero some) atLeast small

/-- How the measurements of a whole text follow from those of its two parts. -/
structure Joins (first second whole : Metrics) : Prop where
  lines : whole.lines = first.lines + second.lines
  solidLines : whole.solidLines = first.solidLines + second.solidLines
  bytes : whole.bytes = first.bytes + second.bytes + 1
  bytesWithoutSpaces :
    whole.bytesWithoutSpaces = first.bytesWithoutSpaces + second.bytesWithoutSpaces + 1
  ofBlankFirst : first.solidLines = 0 → whole.averageLineLength = second.averageLineLength
  ofBlankSecond : second.solidLines = 0 → whole.averageLineLength = first.averageLineLength
  atLeast : first.solidLines ≠ 0 → second.solidLines ≠ 0 →
    min first.averageLineLength second.averageLineLength ≤ whole.averageLineLength
  atMost : first.solidLines ≠ 0 → second.solidLines ≠ 0 →
    whole.averageLineLength ≤ max first.averageLineLength second.averageLineLength

private theorem joins_measure (catalog : Catalog) (language : String) (before after : List Char) :
    Joins (measure catalog language before) (measure catalog language after)
      (measure catalog language (before ++ '\n' :: after)) where
  lines := by
    simp only [measure, lineCount, Text.lines_append_feed, List.length_append]
  solidLines := by
    simp only [measure, Text.solidLines_append_feed, List.length_append]
  bytes := by
    have feed : ('\n').utf8Size = 1 := rfl
    simp only [measure, Text.byteLength_append, Text.byteLength_cons, feed]
    omega
  bytesWithoutSpaces := by
    have feed : ('\n').utf8Size = 1 := rfl
    have kept : ('\n' :: after).filter (· ≠ ' ') = '\n' :: after.filter (· ≠ ' ') :=
      List.filter_cons_of_pos rfl
    simp only [measure, List.filter_append, kept, Text.byteLength_append, Text.byteLength_cons,
      feed]
    omega
  ofBlankFirst := by
    intro blank
    have empty : Text.solidLines before = [] := List.length_eq_zero_iff.mp blank
    simp only [measure, Text.solidLines_append_feed, empty, List.nil_append]
  ofBlankSecond := by
    intro blank
    have empty : Text.solidLines after = [] := List.length_eq_zero_iff.mp blank
    simp only [measure, Text.solidLines_append_feed, empty, List.append_nil]
  atLeast := by
    intro first second
    simp only [measure, Text.solidLines_append_feed, List.length_append, totalBytes_append]
    exact min_average_le_average_add (Nat.pos_of_ne_zero first) (Nat.pos_of_ne_zero second)
  atMost := by
    intro first second
    simp only [measure, Text.solidLines_append_feed, List.length_append, totalBytes_append]
    exact average_add_le_max_average (Nat.pos_of_ne_zero first) (Nat.pos_of_ne_zero second)

/-- The mean length in bytes of the lines that are not blank. -/
def meanLength (text : List Char) : ℚ :=
  ((Text.solidLines text).map byteLength).sum / (Text.solidLines text).length

private theorem averageLineLength_eq_floor (catalog : Catalog) (language : String)
    (text : List Char) :
    (measure catalog language text).averageLineLength = ⌊meanLength text + 1 / 2⌋₊ := by
  rw [measure, average_eq_floor, totalBytes_eq_sum, meanLength]

private theorem averageInDoubles?_of_short (catalog : Catalog) (language : String)
    {text : List Char} (short : byteLength text < 2 ^ 52) :
    averageInDoubles? (totalBytes (Text.solidLines text)) (Text.solidLines text).length =
      some (measure catalog language text).averageLineLength :=
  averageInDoubles?_eq (length_solidLines_le text)
    ((totalBytes_solidLines_le text).trans_lt short)

/-- Measurements of a text follow from those of its parts, and its average is the mean rounded to
the nearest number, whether it is divided exactly or in doubles. -/
theorem measure_joined_and_average_rounded (catalog : Catalog) (language : String) :
    (∀ before after : List Char,
      Joins (measure catalog language before) (measure catalog language after)
        (measure catalog language (before ++ '\n' :: after))) ∧
    ∀ text : List Char,
      (measure catalog language text).averageLineLength = ⌊meanLength text + 1 / 2⌋₊ ∧
      (byteLength text < 2 ^ 52 →
        averageInDoubles? (totalBytes (Text.solidLines text)) (Text.solidLines text).length =
          some (measure catalog language text).averageLineLength) :=
  ⟨joins_measure catalog language, fun text =>
    ⟨averageLineLength_eq_floor catalog language text, averageInDoubles?_of_short catalog language⟩⟩

/-- A line of two bytes and one of three. -/
def unevenText : List Char := ['a', 'b'] ++ '\n' :: ['é', ';']

/-- The mean of two and a half becomes three, which is not more than the greater of the two. -/
theorem measure_unevenText :
    averageInDoubles? 5 2 = some 3 ∧
      (measure .builtin "python" unevenText).averageLineLength = 3 ∧
      (measure .builtin "python" unevenText).averageLineLength ≤
        max (measure .builtin "python" ['a', 'b']).averageLineLength
          (measure .builtin "python" ['é', ';']).averageLineLength := by
  obtain ⟨joins, rounded⟩ := measure_joined_and_average_rounded .builtin "python"
  have three : (measure .builtin "python" unevenText).averageLineLength = 3 := by decide
  refine ⟨?_, three, (joins ['a', 'b'] ['é', ';']).atMost (by decide) (by decide)⟩
  rw [← three]
  exact (rounded unevenText).2 (by decide)

end SnippetAudit.Metrics
