import Mathlib.Data.Finset.Insert
import Mathlib.Data.List.DropRight
import Mathlib.Data.List.NodupEquivFin
import SnippetAudit.Proofs.Smell.Growth

/-!
Repeated lines.

A text repeats a line if two of its lines, at different places, are equal and not blank. One pass
that keeps the lines met so far finds this out. The order of the lines makes no difference.
-/

set_option autoImplicit false

namespace SnippetAudit.Smell

open Text (isBlankChar isBlankLine lines solidLines)

/-! Blank lines -/

def trimBlanks (line : List Char) : List Char :=
  (line.dropWhile isBlankChar).rdropWhile isBlankChar

private theorem isBlankLine_eq_isEmpty_trimBlanks (line : List Char) :
    isBlankLine line = (trimBlanks line).isEmpty := by
  -- What is left after trimming in front does not start with a blank, so it is empty already if
  -- trimming the other end leaves nothing.
  rw [Bool.eq_iff_iff, isBlankLine, List.all_eq_true, List.isEmpty_iff, trimBlanks,
    List.rdropWhile_eq_nil_iff, ← List.dropWhile_eq_nil_iff, ← List.dropWhile_eq_nil_iff,
    List.dropWhile_idempotent]

private theorem isBlankChar_eq_false_iff {c : Char} :
    isBlankChar c = false ↔ c ∉ [' ', '\t', '\n', '\r', '\x00', '\x0b'] := by
  simp only [isBlankChar, Bool.or_eq_false_iff, decide_eq_false_iff_not, List.mem_cons,
    List.not_mem_nil, or_false, not_or, and_assoc]

theorem isBlankLine_eq_false_iff {line : List Char} :
    isBlankLine line = false ↔ ∃ c ∈ line, c ∉ [' ', '\t', '\n', '\r', '\x00', '\x0b'] := by
  simp only [isBlankLine, List.all_eq_false, Bool.not_eq_true, isBlankChar_eq_false_iff]

/-! Rows at two places -/

private theorem duplicate_iff_places {rows : List (List Char)} {row : List Char} :
    rows.Duplicate row ↔
      ∃ i j : Nat, i ≠ j ∧ rows[i]? = some row ∧ rows[j]? = some row := by
  rw [List.duplicate_iff_exists_distinct_get]
  constructor
  · intro distinct
    obtain ⟨n, m, less, first, second⟩ := distinct
    refine ⟨n, m, Fin.val_ne_of_ne less.ne, ?_, ?_⟩
    · rw [first, List.get_eq_getElem, List.getElem?_eq_getElem]
    · rw [second, List.get_eq_getElem, List.getElem?_eq_getElem]
  · intro places
    obtain ⟨i, j, differ, first, second⟩ := places
    obtain ⟨inside, first⟩ := List.getElem?_eq_some_iff.mp first
    obtain ⟨within, second⟩ := List.getElem?_eq_some_iff.mp second
    rcases Nat.lt_or_gt_of_ne differ with less | greater
    · exact ⟨⟨i, inside⟩, ⟨j, within⟩, less, first.symm, second.symm⟩
    · exact ⟨⟨j, within⟩, ⟨i, inside⟩, greater, second.symm, first.symm⟩

theorem duplicate_filter_iff {keep : List Char → Bool} {rows : List (List Char)}
    {row : List Char} :
    (rows.filter keep).Duplicate row ↔ rows.Duplicate row ∧ keep row = true := by
  constructor
  · intro twice
    exact ⟨twice.mono_sublist List.filter_sublist, (List.mem_filter.mp twice.mem).2⟩
  · intro both
    obtain ⟨twice, kept⟩ := both
    have inside := (List.duplicate_iff_sublist.mp twice).filter keep
    rw [List.filter_cons_of_pos kept, List.filter_cons_of_pos kept, List.filter_nil] at inside
    exact List.duplicate_iff_sublist.mpr inside

private theorem repeatsLines_iff_places (text : List Char) :
    repeatsLines text = true ↔
      ∃ (i j : Nat) (line : List Char), i ≠ j ∧ (lines text)[i]? = some line ∧
        (lines text)[j]? = some line ∧
        ∃ c ∈ line, c ∉ [' ', '\t', '\n', '\r', '\x00', '\x0b'] := by
  rw [repeatsLines, hasRepeat_iff, ← List.exists_duplicate_iff_not_nodup, solidLines]
  constructor
  · intro repeated
    obtain ⟨line, twice⟩ := repeated
    obtain ⟨twice, kept⟩ := duplicate_filter_iff.mp twice
    obtain ⟨i, j, differ, first, second⟩ := duplicate_iff_places.mp twice
    exact ⟨i, j, line, differ, first, second,
      isBlankLine_eq_false_iff.mp (by simpa only [Bool.not_eq_true'] using kept)⟩
  · intro places
    obtain ⟨i, j, line, differ, first, second, solid⟩ := places
    have twice := duplicate_iff_places.mpr ⟨i, j, differ, first, second⟩
    have kept : (!isBlankLine line) = true := by
      rw [isBlankLine_eq_false_iff.mpr solid, Bool.not_false]
    exact ⟨line, duplicate_filter_iff.mpr ⟨twice, kept⟩⟩

/-! One pass -/

/-- Whether a row is met that was met before, or is one of those already seen. -/
def meetsAgain (seen : Finset (List Char)) : List (List Char) → Bool
  | [] => false
  | row :: rows => decide (row ∈ seen) || meetsAgain (insert row seen) rows

private theorem meetsAgain_iff {seen : Finset (List Char)} {rows : List (List Char)} :
    meetsAgain seen rows = true ↔ (∃ row ∈ rows, row ∈ seen) ∨ ¬ rows.Nodup := by
  induction rows generalizing seen with
  | nil => simp [meetsAgain]
  | cons row rows ih =>
      have inserted : (∃ other ∈ rows, other ∈ insert row seen) ↔
          row ∈ rows ∨ ∃ other ∈ rows, other ∈ seen := by
        simp only [Finset.mem_insert, and_or_left, exists_or, exists_eq_right]
      have listed : (∃ other ∈ row :: rows, other ∈ seen) ↔
          row ∈ seen ∨ ∃ other ∈ rows, other ∈ seen := by
        simp only [List.mem_cons, or_and_right, exists_or, exists_eq_left]
      rw [meetsAgain, Bool.or_eq_true, decide_eq_true_eq, ih, inserted, listed, List.nodup_cons,
        not_and_or, not_not, or_or_or_comm, or_assoc, or_assoc]

private theorem repeatsLines_eq_meetsAgain (text : List Char) :
    repeatsLines text =
      meetsAgain ∅ ((lines text).filter fun line => !(trimBlanks line).isEmpty) := by
  rw [Bool.eq_iff_iff, repeatsLines, hasRepeat_iff, meetsAgain_iff, solidLines]
  simp [isBlankLine_eq_isEmpty_trimBlanks]

/-! Order -/

private theorem repeatsLines_intercalate_of_perm {rows others : List (List Char)}
    (noFeed : ∀ row ∈ rows, '\n' ∉ row) (reordered : rows.Perm others) :
    repeatsLines (['\n'].intercalate rows) = repeatsLines (['\n'].intercalate others) := by
  cases rows with
  | nil => rw [List.nil_perm.mp reordered]
  | cons row rows =>
      have nonempty : others ≠ [] := by
        intro empty
        subst empty
        exact List.cons_ne_nil row rows reordered.eq_nil
      have othersNoFeed : ∀ other ∈ others, '\n' ∉ other :=
        fun other member => noFeed other (reordered.mem_iff.mpr member)
      rw [Bool.eq_iff_iff, repeatsLines, repeatsLines, hasRepeat_iff, hasRepeat_iff, solidLines,
        solidLines, Text.lines_intercalate (List.cons_ne_nil row rows) noFeed,
        Text.lines_intercalate nonempty othersNoFeed, (reordered.filter _).nodup_iff]

/-! The finding -/

private theorem mem_findings_duplicates (catalog : Catalog) (rules : Rules) (language : String)
    (text : List Char) :
    finding "Duplicate Code" "duplicates" ∈ findings catalog rules language text ↔
      repeatsLines text = true := by
  simp [findings, checks, finding]

/-- The finding is made exactly if a line that is not blank stands at two places, and exactly if one
pass meets such a line again. Lines joined in another order are found to repeat or not as before. -/
theorem repeatsLines_places_pass_and_order :
    (∀ (catalog : Catalog) (rules : Rules) (language : String) (text : List Char),
      finding "Duplicate Code" "duplicates" ∈ findings catalog rules language text ↔
        repeatsLines text = true) ∧
    (∀ text : List Char,
      (repeatsLines text = true ↔
        ∃ (i j : Nat) (line : List Char), i ≠ j ∧ (lines text)[i]? = some line ∧
          (lines text)[j]? = some line ∧
          ∃ c ∈ line, c ∉ [' ', '\t', '\n', '\r', '\x00', '\x0b']) ∧
      repeatsLines text =
        meetsAgain ∅ ((lines text).filter fun line => !(trimBlanks line).isEmpty)) ∧
    ∀ rows others : List (List Char), (∀ row ∈ rows, '\n' ∉ row) → rows.Perm others →
      repeatsLines (['\n'].intercalate rows) = repeatsLines (['\n'].intercalate others) :=
  ⟨mem_findings_duplicates,
    fun text => ⟨repeatsLines_iff_places text, repeatsLines_eq_meetsAgain text⟩,
    fun _ _ => repeatsLines_intercalate_of_perm⟩

/-- A form feed does not leave a line blank, so two lines of it are a repetition wherever they
stand. -/
theorem repeatsLines_of_reordered_feeds :
    repeatsLines (['\n'].intercalate [['\x0c'], [' '], [' '], ['\x0c']]) = true ∧
      repeatsLines (['\n'].intercalate [['\x0c'], [' '], [' '], ['\x0c']]) =
        repeatsLines (['\n'].intercalate [[' '], ['\x0c'], ['\x0c'], [' ']]) := by
  obtain ⟨_, places, order⟩ := repeatsLines_places_pass_and_order
  refine ⟨(places _).1.mpr ⟨0, 3, ['\x0c'], by decide, rfl, rfl, ?_⟩, order _ _ ?_ ?_⟩
  · exact ⟨'\x0c', List.mem_cons_self, by decide⟩
  · decide
  · decide

end SnippetAudit.Smell
