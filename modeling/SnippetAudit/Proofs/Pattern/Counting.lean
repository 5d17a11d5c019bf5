import SnippetAudit.Proofs.Pattern.Traces

/-!
Matches from left to right.

Of the matches from all places, those are kept that do not overlap the one kept before. Here the
same matches are met by walking along the text: a match is taken and its piece is passed over, and
where there is no match one character is passed over. The equations are for patterns that take a
character in each match.
-/

set_option autoImplicit false

namespace SnippetAudit.Pattern

/-- The matches met from a place on, once `skip` characters are passed over. -/
def metFrom (pattern : Pattern) : Nat → List Char → List Char → List Match
  | _, _, [] => []
  | skip + 1, left, c :: right => metFrom pattern skip (left ++ [c]) right
  | 0, left, c :: right =>
      (finds pattern ending left (c :: right)).elim (metFrom pattern 0 (left ++ [c]) right)
        fun hit =>
          matchFrom left.length hit ::
            metFrom pattern (hit.stop - (left.length + 1)) (left ++ [c]) right

/-- The matches counted from a place on, once `skip` characters are passed over. -/
def countFrom (pattern : Pattern) : Nat → List Char → List Char → Nat
  | _, _, [] => 0
  | skip + 1, left, c :: right => countFrom pattern skip (left ++ [c]) right
  | 0, left, c :: right =>
      (finds pattern ending left (c :: right)).elim (countFrom pattern 0 (left ++ [c]) right)
        fun hit => countFrom pattern (hit.stop - (left.length + 1)) (left ++ [c]) right + 1

theorem length_metFrom (pattern : Pattern) (skip : Nat) (left right : List Char) :
    (metFrom pattern skip left right).length = countFrom pattern skip left right := by
  induction right generalizing skip left with
  | nil => rw [metFrom, countFrom, List.length_nil]
  | cons c right ih =>
      cases skip with
      | succ skip => rw [metFrom, countFrom, ih]
      | zero =>
          rw [metFrom, countFrom]
          cases finds pattern ending left (c :: right) with
          | none => exact ih 0 _
          | some hit => exact congrArg Nat.succ (ih _ _)

/-- Where the match that was kept last ends. -/
def lastStop (kept : List Match) : Nat :=
  (kept.head?.map Match.stop).getD 0

private theorem keepApart_eq {kept : List Match} {found : Match}
    (taken : found.start < found.stop) :
    keepApart kept found = if lastStop kept ≤ found.start then found :: kept else kept := by
  cases kept with
  | nil => rfl
  | cons last others =>
      have same :
          (last.stop < found.start || (last.stop = found.start && found.start < found.stop)) =
          decide (last.stop ≤ found.start) := by
        simp only [taken, decide_true, Bool.and_true, ← Bool.decide_or]
        exact decide_eq_decide.mpr Nat.le_iff_lt_or_eq.symm
      simp only [keepApart, same, decide_eq_true_eq]
      rfl

section Walk

variable {pattern : Pattern} (rounds : pattern.roundsTake = true)
include rounds

private theorem stop_of_finds (taking : pattern.mayBeEmpty = false) {left right : List Char}
    {hit : Hit} (found : finds pattern ending left right = some hit) :
    ∃ piece rest, right = piece ++ rest ∧ piece ≠ [] ∧ Spans pattern left piece rest ∧
      hit.stop = left.length + piece.length := by
  obtain ⟨piece, rest, split, traces⟩ := traces_of_finds rounds found
  exact ⟨piece, rest, split, traces.spans.ne_nil taking, traces.spans,
    traces.stop_eq.trans List.length_append⟩

/-- Keeping apart the matches from all places takes those that the walk meets. -/
theorem foldl_keepApart_eq (taking : pattern.mayBeEmpty = false) (kept : List Match)
    (left right : List Char) :
    (startingFrom pattern left right).foldl keepApart kept =
      (metFrom pattern (lastStop kept - left.length) left right).reverse ++ kept := by
  induction right generalizing kept left with
  | nil =>
      have missing : finds pattern ending left [] = none := by
        cases found : finds pattern ending left [] with
        | none => rfl
        | some hit =>
            obtain ⟨piece, rest, split, nonempty, _⟩ := stop_of_finds rounds taking found
            exact absurd (List.append_eq_nil_iff.mp split.symm).1 nonempty
      rw [startingFrom, startingAt, missing, metFrom]
      rfl
  | cons c right ih =>
      have next : (left ++ [c]).length = left.length + 1 := List.length_append
      rw [startingFrom, startingAt, List.foldl_append]
      cases found : finds pattern ending left (c :: right) with
      | none =>
          simp only [Option.toList_none, List.map_nil, List.foldl_nil]
          rw [ih, next]
          cases passed : lastStop kept - left.length with
          | zero =>
              have noSkip : lastStop kept - (left.length + 1) = 0 := by omega
              rw [metFrom, found, Option.elim_none, noSkip]
          | succ skip =>
              have fewer : lastStop kept - (left.length + 1) = skip := by omega
              rw [metFrom, fewer]
      | some hit =>
          obtain ⟨piece, _, _, nonempty, _, stop⟩ := stop_of_finds rounds taking found
          have positive := List.length_pos_iff.mpr nonempty
          have taken : (matchFrom left.length hit).start < (matchFrom left.length hit).stop := by
            change left.length < hit.stop
            omega
          simp only [Option.toList_some, List.map_cons, List.map_nil, List.foldl_cons,
            List.foldl_nil, keepApart_eq taken]
          rw [ih, next]
          cases passed : lastStop kept - left.length with
          | zero =>
              have behind : lastStop kept ≤ (matchFrom left.length hit).start := by
                change lastStop kept ≤ left.length
                omega
              have last : lastStop (matchFrom left.length hit :: kept) = hit.stop := rfl
              rw [if_pos behind, metFrom, found, Option.elim_some, last, List.reverse_cons,
                List.append_assoc, List.singleton_append]
          | succ skip =>
              have overlapping : ¬ lastStop kept ≤ (matchFrom left.length hit).start := by
                change ¬ lastStop kept ≤ left.length
                omega
              have fewer : lastStop kept - (left.length + 1) = skip := by omega
              rw [if_neg overlapping, metFrom, fewer]

/-- The matches in a text are those met by walking along it. -/
theorem occurrences_eq_metFrom (taking : pattern.mayBeEmpty = false) (text : List Char) :
    pattern.occurrences text = metFrom pattern 0 [] text := by
  rw [occurrences, candidates_eq, foldl_keepApart_eq rounds taking, List.append_nil,
    List.reverse_reverse]
  rfl

theorem count_eq_countFrom (taking : pattern.mayBeEmpty = false) (text : List Char) :
    pattern.count text = countFrom pattern 0 [] text := by
  rw [count, occurrences_eq_metFrom rounds taking, length_metFrom]

omit rounds in
theorem countFrom_le_length (skip : Nat) (left right : List Char) :
    countFrom pattern skip left right ≤ right.length := by
  induction right generalizing skip left with
  | nil => exact Nat.le_of_eq (by rw [countFrom, List.length_nil])
  | cons c right ih =>
      rw [List.length_cons]
      cases skip with
      | succ skip => exact Nat.le_succ_of_le (ih skip _)
      | zero =>
          rw [countFrom]
          cases finds pattern ending left (c :: right) with
          | none => exact Nat.le_succ_of_le (ih 0 _)
          | some hit => exact Nat.succ_le_succ (ih _ _)

omit rounds in
theorem metFrom_skip (left piece right : List Char) :
    metFrom pattern piece.length left (piece ++ right) =
      metFrom pattern 0 (left ++ piece) right := by
  induction piece generalizing left with
  | nil => rw [List.append_nil, List.length_nil, List.nil_append]
  | cons c piece ih =>
      rw [List.length_cons, List.cons_append, metFrom, ih, List.append_assoc]
      rfl

/-- Nothing that starts at the place is matched. -/
def Misses (pattern : Pattern) (left right : List Char) : Prop :=
  ∀ piece rest, right = piece ++ rest → ¬ Spans pattern left piece rest

theorem Misses.finds_eq_none {left right : List Char} (misses : Misses pattern left right) :
    finds pattern ending left right = none := by
  cases found : finds pattern ending left right with
  | none => rfl
  | some hit =>
      obtain ⟨piece, rest, split, traces⟩ := traces_of_finds rounds found
      exact absurd traces.spans (misses piece rest split)

/-- A piece without a match from any of its places is passed over. -/
theorem metFrom_of_misses {left piece right : List Char}
    (misses : ∀ before c after, piece = before ++ c :: after →
      Misses pattern (left ++ before) (c :: after ++ right)) :
    metFrom pattern 0 left (piece ++ right) = metFrom pattern 0 (left ++ piece) right := by
  induction piece generalizing left with
  | nil => rw [List.append_nil, List.nil_append]
  | cons c piece ih =>
      have here : Misses pattern left (c :: (piece ++ right)) := by
        have start := misses [] c piece rfl
        rwa [List.append_nil] at start
      rw [List.cons_append, metFrom, here.finds_eq_none rounds, Option.elim_none, ih,
        List.append_assoc]
      · rfl
      · intro before d after split
        rw [List.append_assoc]
        exact misses (c :: before) d after (congrArg (c :: ·) split)

theorem countFrom_of_misses {left piece right : List Char}
    (misses : ∀ before c after, piece = before ++ c :: after →
      Misses pattern (left ++ before) (c :: after ++ right)) :
    countFrom pattern 0 left (piece ++ right) = countFrom pattern 0 (left ++ piece) right := by
  rw [← length_metFrom, metFrom_of_misses rounds misses, length_metFrom]

/-- If a place has one match only, that match is met. -/
theorem metFrom_of_spans (taking : pattern.mayBeEmpty = false) {left piece right : List Char}
    (spans : Spans pattern left piece right)
    (only : ∀ other rest, piece ++ right = other ++ rest → Spans pattern left other rest →
      other = piece) :
    ∃ found, found.start = left.length ∧ found.stop = left.length + piece.length ∧
      metFrom pattern 0 left (piece ++ right) =
        found :: metFrom pattern 0 (left ++ piece) right := by
  obtain ⟨c, piece, rfl⟩ := List.exists_cons_of_ne_nil (spans.ne_nil taking)
  have isSome : (finds pattern ending left (c :: (piece ++ right))).isSome = true :=
    (findsSpans rounds ..).mpr ⟨c :: piece, right, rfl, spans, rfl⟩
  obtain ⟨hit, found⟩ := Option.isSome_iff_exists.mp isSome
  obtain ⟨other, rest, split, _, otherSpans, stop⟩ := stop_of_finds rounds taking found
  rw [only other rest split otherSpans] at stop
  have skip : hit.stop - (left.length + 1) = piece.length := by
    rw [stop, List.length_cons]
    omega
  refine ⟨matchFrom left.length hit, rfl, stop, ?_⟩
  rw [List.cons_append, metFrom, found, Option.elim_some, skip, metFrom_skip, List.append_assoc]
  rfl

theorem countFrom_of_spans (taking : pattern.mayBeEmpty = false) {left piece right : List Char}
    (spans : Spans pattern left piece right)
    (only : ∀ other rest, piece ++ right = other ++ rest → Spans pattern left other rest →
      other = piece) :
    countFrom pattern 0 left (piece ++ right) = countFrom pattern 0 (left ++ piece) right + 1 := by
  obtain ⟨found, _, _, met⟩ := metFrom_of_spans rounds taking spans only
  rw [← length_metFrom, met, List.length_cons, length_metFrom]

/-- A match can be counted at its start, if no other match starts in the rest of it. -/
theorem countFrom_of_spans_append (taking : pattern.mayBeEmpty = false)
    {left first more right : List Char} (spans : Spans pattern left (first ++ more) right)
    (only : ∀ other rest, first ++ more ++ right = other ++ rest → Spans pattern left other rest →
      other = first ++ more)
    (misses : ∀ before c after, more = before ++ c :: after →
      Misses pattern (left ++ first ++ before) (c :: after ++ right)) :
    countFrom pattern 0 left (first ++ (more ++ right)) =
      countFrom pattern 0 (left ++ first) (more ++ right) + 1 := by
  rw [← List.append_assoc, countFrom_of_spans rounds taking spans only,
    countFrom_of_misses rounds misses, List.append_assoc]

end Walk

end SnippetAudit.Pattern
