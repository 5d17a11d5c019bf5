import Mathlib.Algebra.Ring.Nat
import Mathlib.Data.Int.ConditionallyCompleteOrder
import SnippetAudit.Proofs.Text.Lines
import SnippetAudit.Smell

/-!
The depth of nesting.

At the end of a line the depth is the number of braces opened in the text so far less the number of
those closed. It may be negative, and the scan does not lift it. The deepest nesting is the greatest
of these depths, or zero. In a text of less than 2 ^ 63 bytes every number that the scan meets is a
signed word of 64 bits.
-/

set_option autoImplicit false

namespace SnippetAudit.Smell

open Text (lines byteLength)

/-! The ends of lines -/

/-- The piece is the text up to the end of one of its lines. -/
def UpToLineEnd (text piece : List Char) : Prop :=
  ∃ rest, text = piece ++ rest ∧ ∀ c ∈ rest.head?, c = '\n'

private theorem upToLineEnd_of_noFeed {line piece : List Char} (noFeed : '\n' ∉ line) :
    UpToLineEnd line piece ↔ piece = line := by
  constructor
  · intro ends
    obtain ⟨rest, rfl, feed⟩ := ends
    cases rest with
    | nil => exact (List.append_nil piece).symm
    | cons c rest =>
        rw [feed c rfl] at noFeed
        exact absurd (List.mem_append_right piece List.mem_cons_self) noFeed
  · intro whole
    subst whole
    exact ⟨[], (List.append_nil piece).symm, fun c member => by cases member⟩

private theorem upToLineEnd_append_feed {line rest piece : List Char} (noFeed : '\n' ∉ line) :
    UpToLineEnd (line ++ '\n' :: rest) piece ↔
      piece = line ∨ ∃ more, piece = line ++ '\n' :: more ∧ UpToLineEnd rest more := by
  constructor
  · intro ends
    obtain ⟨after, split, feed⟩ := ends
    rcases List.append_eq_append_iff.mp split with ⟨more, rfl, tail⟩ | ⟨more, rfl, tail⟩
    · cases more with
      | nil => exact .inl (List.append_nil line)
      | cons c more =>
          obtain ⟨rfl, rfl⟩ := List.cons.inj tail
          exact .inr ⟨more, rfl, after, rfl, feed⟩
    · cases more with
      | nil => exact .inl (List.append_nil piece).symm
      | cons c more =>
          rw [tail, List.cons_append] at feed
          rw [feed c rfl] at noFeed
          exact absurd (List.mem_append_right piece List.mem_cons_self) noFeed
  · intro ends
    cases ends with
    | inl first =>
        subst first
        exact ⟨'\n' :: rest, rfl, fun c head => (Option.some.inj head).symm⟩
    | inr later =>
        obtain ⟨more, rfl, after, rfl, feed⟩ := later
        exact ⟨after, by rw [List.append_assoc, List.cons_append], feed⟩

/-! The scan -/

theorem depthChange_append (left right : List Char) :
    depthChange (left ++ right) = depthChange left + depthChange right := by
  simp only [depthChange, List.count_append]
  omega

private theorem depthChange_feed (left right : List Char) :
    depthChange (left ++ '\n' :: right) = depthChange left + depthChange right := by
  rw [List.append_cons, depthChange_append, depthChange_append]
  exact congrArg (· + _) (Int.add_zero _)

/-- The depths at the ends of the lines of a text that starts at the given depth. -/
def lineEndDepths (start : Int) (text : List Char) : Set Int :=
  {depth | ∃ piece, UpToLineEnd text piece ∧ depth = start + depthChange piece}

private theorem lineEndDepths_of_noFeed {line : List Char} (noFeed : '\n' ∉ line) (start : Int) :
    lineEndDepths start line = {start + depthChange line} := by
  ext depth
  simp only [lineEndDepths, upToLineEnd_of_noFeed noFeed, Set.mem_ofPred_eq, exists_eq_left,
    Set.mem_singleton_iff]

private theorem lineEndDepths_append_feed {line : List Char} (noFeed : '\n' ∉ line) (start : Int)
    (rest : List Char) :
    lineEndDepths start (line ++ '\n' :: rest) =
      insert (start + depthChange line) (lineEndDepths (start + depthChange line) rest) := by
  ext depth
  simp only [lineEndDepths, upToLineEnd_append_feed noFeed, Set.mem_ofPred_eq, Set.mem_insert_iff]
  constructor
  · intro met
    obtain ⟨piece, rfl | ⟨more, rfl, ends⟩, rfl⟩ := met
    · exact .inl rfl
    · exact .inr ⟨more, ends, by rw [depthChange_feed, Int.add_assoc]⟩
  · intro met
    obtain rfl | ⟨more, ends, rfl⟩ := met
    · exact ⟨line, .inl rfl, rfl⟩
    · exact ⟨_, .inr ⟨more, rfl, ends⟩, by rw [depthChange_feed, Int.add_assoc]⟩

private theorem isGreatest_insert_insert {first second greatest : Int} {depths : Set Int}
    (isGreatest : IsGreatest (insert (max first second) depths) greatest) :
    IsGreatest (insert first (insert second depths)) greatest := by
  obtain ⟨member, bound⟩ := isGreatest
  have atLeast : max first second ≤ greatest := bound (Set.mem_insert _ _)
  constructor
  · rcases member with rfl | met
    · rcases max_choice first second with same | same
      · exact .inl same
      · exact .inr (.inl same)
    · exact .inr (.inr met)
  · intro depth met
    obtain rfl | rfl | met := met
    · exact (le_max_left _ _).trans atLeast
    · exact (le_max_right _ _).trans atLeast
    · exact bound (.inr met)

/-- What the scan keeps is the greatest of what it kept before and of the depths that it met. -/
theorem isGreatest_deepest (scan : DepthScan) (text : List Char) :
    IsGreatest (insert scan.deepest (lineEndDepths scan.depth text))
      ((lines text).foldl DepthScan.step scan).deepest := by
  induction text using Text.lines_induction generalizing scan with
  | last line noFeed =>
      rw [Text.lines_of_noFeed noFeed, lineEndDepths_of_noFeed noFeed]
      exact isGreatest_pair
  | feed line rest noFeed ih =>
      rw [Text.lines_append_feed, Text.lines_of_noFeed noFeed, lineEndDepths_append_feed noFeed]
      exact isGreatest_insert_insert (ih (scan.step line))

private theorem isGreatest_deepestNesting (text : List Char) :
    IsGreatest (insert 0 (lineEndDepths 0 text)) (deepestNesting text : Int) := by
  have deepest := isGreatest_deepest {} text
  have nonneg := deepest.2 (Set.mem_insert _ _)
  rwa [deepestNesting, Int.toNat_of_nonneg nonneg]

/-! Words -/

def word? (n : Int) : Option Int64 :=
  if fits : Int64.minValue.toInt ≤ n ∧ n ≤ Int64.maxValue.toInt then
    some (.ofIntLE n fits.1 fits.2)
  else none

structure WordScan where
  depth : Int64 := 0
  deepest : Int64 := 0

/-- Reads one line. There is no result if a number is not a word. -/
def WordScan.step? (scan : WordScan) (line : List Char) : Option WordScan := do
  let opened ← word? (line.count '\x7b')
  let closed ← word? (line.count '\x7d')
  let change ← word? (opened.toInt - closed.toInt)
  let depth ← word? (scan.depth.toInt + change.toInt)
  return { depth, deepest := max scan.deepest depth }

/-- The deepest nesting in words. There is no result if a number is not a word, or if the last one
is negative. -/
def nestingInWords? (text : List Char) : Option UInt64 := do
  let scan ← (lines text).foldlM WordScan.step? {}
  if 0 ≤ scan.deepest then some scan.deepest.toUInt64 else none

structure WordScan.Holds (words : WordScan) (scan : DepthScan) : Prop where
  depth : words.depth.toInt = scan.depth
  deepest : words.deepest.toInt = scan.deepest

private theorem exists_word? {n : Int} (fits : n.natAbs < 2 ^ 63) :
    ∃ word, word? n = some word ∧ word.toInt = n := by
  have both : Int64.minValue.toInt ≤ n ∧ n ≤ Int64.maxValue.toInt := by
    rw [Int64.toInt_minValue, Int64.toInt_maxValue]
    omega
  exact ⟨_, dif_pos both, Int64.toInt_ofIntLE⟩

private theorem toInt_max (left right : Int64) :
    (max left right).toInt = max left.toInt right.toInt := by
  change (if left ≤ right then right else left).toInt = _
  split
  · next less => exact (max_eq_right (Int64.le_iff_toInt_le.mp less)).symm
  · next greater =>
      rw [Int64.le_iff_toInt_le, not_le] at greater
      exact (max_eq_left greater.le).symm

private theorem depth_step (scan : DepthScan) (line : List Char) :
    (scan.step line).depth = scan.depth + depthChange line := rfl

private theorem natAbs_depth_step_le (scan : DepthScan) (line : List Char) :
    (scan.step line).depth.natAbs ≤ scan.depth.natAbs + line.length := by
  have fewOpened : line.count '\x7b' ≤ line.length := List.count_le_length
  have fewClosed : line.count '\x7d' ≤ line.length := List.count_le_length
  rw [depth_step, depthChange]
  omega

theorem WordScan.Holds.exists_step? {words : WordScan} {scan : DepthScan} (holds : words.Holds scan)
    {line : List Char} (room : scan.depth.natAbs + line.length < 2 ^ 63) :
    ∃ next, words.step? line = some next ∧ next.Holds (scan.step line) := by
  have fewOpened : line.count '\x7b' ≤ line.length := List.count_le_length
  have fewClosed : line.count '\x7d' ≤ line.length := List.count_le_length
  have fewDeep := natAbs_depth_step_le scan line
  obtain ⟨opened, isOpened, openedEq⟩ := exists_word? (n := line.count '\x7b') (by omega)
  obtain ⟨closed, isClosed, closedEq⟩ := exists_word? (n := line.count '\x7d') (by omega)
  obtain ⟨change, isChange, changeEq⟩ : ∃ word, word? (depthChange line) = some word ∧
      word.toInt = depthChange line := by
    apply exists_word?
    rw [depthChange]
    omega
  obtain ⟨depth, isDepth, depthEq⟩ := exists_word? (n := (scan.step line).depth) (by omega)
  have difference : opened.toInt - closed.toInt = depthChange line := by
    rw [openedEq, closedEq, depthChange]
  have sum : words.depth.toInt + change.toInt = (scan.step line).depth := by
    rw [holds.depth, changeEq, depth_step]
  refine ⟨⟨depth, max words.deepest depth⟩, ?_, depthEq, ?_⟩
  · simp only [step?, isOpened, isClosed, Option.bind_eq_bind, Option.bind_some, difference,
      isChange, sum, isDepth]
    rfl
  · rw [toInt_max, holds.deepest, depthEq]
    rfl

/-- As long as the text and the depth are within words, the scan in words is the other one. -/
theorem WordScan.Holds.exists_foldlM {words : WordScan} {scan : DepthScan}
    (holds : words.Holds scan) {text : List Char}
    (room : scan.depth.natAbs + text.length < 2 ^ 63) :
    ∃ last, (lines text).foldlM step? words = some last ∧
      last.Holds ((lines text).foldl DepthScan.step scan) := by
  induction text using Text.lines_induction generalizing words scan with
  | last line noFeed =>
      obtain ⟨next, isNext, nextHolds⟩ := holds.exists_step? room
      rw [Text.lines_of_noFeed noFeed, List.foldlM_cons, isNext]
      exact ⟨next, rfl, nextHolds⟩
  | feed line rest noFeed ih =>
      rw [List.length_append, List.length_cons] at room
      have here : scan.depth.natAbs + line.length < 2 ^ 63 := by omega
      have fewDeep := natAbs_depth_step_le scan line
      obtain ⟨next, isNext, nextHolds⟩ := holds.exists_step? here
      obtain ⟨last, isLast, lastHolds⟩ := ih nextHolds (by omega)
      rw [Text.lines_append_feed, Text.lines_of_noFeed noFeed, List.singleton_append,
        List.foldlM_cons, isNext]
      exact ⟨last, isLast, lastHolds⟩

private theorem map_nestingInWords? {text : List Char} (short : byteLength text < 2 ^ 63) :
    (nestingInWords? text).map UInt64.toNat = some (deepestNesting text) := by
  have room : (0 : Int).natAbs + text.length < 2 ^ 63 := by
    have few := Text.length_le_byteLength text
    omega
  have start : WordScan.Holds {} {} := ⟨rfl, rfl⟩
  obtain ⟨last, isLast, holds⟩ := start.exists_foldlM room
  have nonneg : 0 ≤ last.deepest := by
    rw [Int64.le_iff_toInt_le, holds.deepest]
    exact (isGreatest_deepest {} text).2 (Set.mem_insert _ _)
  rw [nestingInWords?, isLast]
  change Option.map _ (if 0 ≤ last.deepest then some last.deepest.toUInt64 else none) = _
  rw [if_pos nonneg, Option.map_some, Int64.toNat_toUInt64_of_le nonneg, deepestNesting,
    ← holds.deepest]
  rfl

/-- The deepest nesting is the greatest depth at the end of a line, or zero if none is above it. In
a text shorter than `2 ^ 63` bytes it is found in words. -/
theorem deepestNesting_greatest_and_in_words (text : List Char) :
    IsGreatest
        (insert 0 {depth : Int | ∃ piece, UpToLineEnd text piece ∧
          depth = piece.count '\x7b' - piece.count '\x7d'})
        (deepestNesting text : Int) ∧
      (byteLength text < 2 ^ 63 →
        (nestingInWords? text).map UInt64.toNat = some (deepestNesting text)) := by
  refine ⟨?_, map_nestingInWords?⟩
  have greatest := isGreatest_deepestNesting text
  simpa only [lineEndDepths, depthChange, Int.zero_add] using greatest

/-- Its lines end at the depths -2, 0, 1 and 0. -/
def unbalancedText : List Char :=
  "\x7d\x7d\n\x7b\x7b\x7b \x7d\n\x7b\n\x7d".toList

theorem deepestNesting_unbalancedText :
    byteLength unbalancedText < 2 ^ 63 ∧ deepestNesting unbalancedText = 1 ∧
      (nestingInWords? unbalancedText).map UInt64.toNat = some 1 := by
  have short : byteLength unbalancedText < 2 ^ 63 := by decide
  have one : deepestNesting unbalancedText = 1 := by decide
  have inWords := (deepestNesting_greatest_and_in_words unbalancedText).2 short
  rw [one] at inWords
  exact ⟨short, one, inWords⟩

end SnippetAudit.Smell
