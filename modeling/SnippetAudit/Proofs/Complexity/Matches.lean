import Mathlib.Data.List.Infix
import SnippetAudit.Proofs.Complexity.Tokens

/-!
Matches of the patterns of tokens, counted along the text.

A keyword and an `else if` are counted run by run, a conditional mark character by character, and
doubled signs along each run of signs.
-/

set_option autoImplicit false

namespace SnippetAudit.Complexity

open Pattern (Spans Misses countFrom)
open Scan (asciiBlanks)
open Text (FirstRun runs)

/-! Matches, run by run -/

/-- Every match is from the start of a run of word characters. -/
def StartsWords (pattern : Pattern) : Prop :=
  ∀ left piece right, Spans pattern left piece right →
    Outside left.getLast? ∧ ∃ c ∈ piece.head?, isAsciiWord c = true

private theorem startsWords_keyword {word : String} (proper : (Token.keyword word).IsProper) :
    StartsWords (Token.keyword word).pattern := by
  intro left piece right spans
  obtain ⟨rfl, outside, whole⟩ := (spans_keyword proper).mp spans
  obtain ⟨c, others, start⟩ := List.exists_cons_of_ne_nil whole.nonempty
  exact ⟨outside, c, by rw [start, List.head?_cons, Option.mem_def],
    whole.uniform c (start ▸ List.mem_cons_self)⟩

private theorem startsWords_elseIf : StartsWords Token.elseIf.pattern := by
  intro left piece right spans
  obtain ⟨gap, rfl, _, _, outside, _⟩ := spans_elseIf.mp spans
  exact ⟨outside, 'e', rfl, by decide⟩

/-- Such a pattern has no match in a run if it has none from the start of the run. -/
theorem StartsWords.misses {pattern : Pattern} (starts : StartsWords pattern) {kind : Bool}
    {left run rest : List Char} (first : FirstRun isAsciiWord kind run rest)
    (misses : Misses pattern left (run ++ rest)) {before after : List Char} {c : Char}
    (split : run = before ++ c :: after) :
    Misses pattern (left ++ before) (c :: after ++ rest) := by
  by_cases atStart : before = []
  · subst atStart
    rwa [List.append_nil, ← List.nil_append (c :: after), ← split]
  · intro piece more cut spans
    obtain ⟨outside, d, head, word⟩ := starts _ _ _ spans
    obtain ⟨e, last, kindBefore⟩ := first.inside split atStart
    have same : d = c := by
      cases piece with
      | nil => cases head
      | cons d' piece =>
          cases head
          exact (List.cons.inj cut).1.symm
    have kindHere : isAsciiWord c = kind := first.uniform c (split ▸ by simp)
    rw [← same, word] at kindHere
    rw [outside e last, ← kindHere] at kindBefore
    cases kindBefore

private theorem countFrom_keyword {word : String} (proper : (Token.keyword word).IsProper)
    (text : List Char) :
    ∀ left, Text.TurnsAt isAsciiWord left text →
      countFrom (Token.keyword word).pattern 0 left text =
        (runs isAsciiWord text).count word.toList := by
  have rounds := roundsTake_pattern (.keyword word)
  induction text using Text.runs_induction isAsciiWord with
  | nil =>
      intro left _
      rfl
  | append kind run rest first ih =>
      intro left turns
      rw [first.runs_eq, List.count_cons, ← ih _ (first.turnsAt left)]
      by_cases same : run = word.toList
      · have isWord : kind = true := by
          rw [← first.all_eq, same]
          exact proper.2
        subst isWord
        have spans : Spans (Token.keyword word).pattern left run rest :=
          (spans_keyword proper).mpr ⟨same, first.before turns, same ▸ first⟩
        rw [if_pos (beq_iff_eq.mpr same)]
        apply Pattern.countFrom_of_spans rounds (mayBeEmpty_pattern proper) spans
        intro other _ _ otherSpans
        rw [((spans_keyword proper).mp otherSpans).1, same]
      · rw [if_neg (mt beq_iff_eq.mp same), Nat.add_zero]
        apply Pattern.countFrom_of_misses rounds
        intro before c after split
        refine (startsWords_keyword proper).misses first ?_ split
        intro piece more cut spans
        obtain ⟨rfl, _, whole⟩ := (spans_keyword proper).mp spans
        exact same (first.unique whole cut).2.1

theorem isAsciiWord_of_blank {c : Char} (blank : isAsciiBlank c = true) :
    isAsciiWord c = false := by
  have member := List.contains_iff_mem.mp blank
  simp only [asciiBlanks, List.mem_cons, List.not_mem_nil, or_false] at member
  rcases member with rfl | rfl | rfl | rfl | rfl | rfl <;> decide

section ElseIf

variable {gap rest : List Char}

private theorem firstRun_if (outside : Outside rest.head?) :
    FirstRun isAsciiWord true ['i', 'f'] rest :=
  ⟨List.cons_ne_nil _ _, List.all_eq_true.mp (by decide), outside⟩

private theorem firstRun_gap (nonempty : gap ≠ []) (blank : ∀ c ∈ gap, isAsciiBlank c = true) :
    FirstRun isAsciiWord false gap (['i', 'f'] ++ rest) := by
  refine ⟨nonempty, fun c member => isAsciiWord_of_blank (blank c member), fun c head => ?_⟩
  cases head
  decide

private theorem firstRun_else (nonempty : gap ≠ []) (blank : ∀ c ∈ gap, isAsciiBlank c = true) :
    FirstRun isAsciiWord true ['e', 'l', 's', 'e'] (gap ++ rest) := by
  refine ⟨List.cons_ne_nil _ _, List.all_eq_true.mp (by decide), fun c head => ?_⟩
  obtain ⟨d, others, rfl⟩ := List.exists_cons_of_ne_nil nonempty
  cases head
  exact isAsciiWord_of_blank (blank _ List.mem_cons_self)

/-- A match of `else if` from the start of a run covers three runs. -/
theorem runs_of_spans_elseIf {kind : Bool} {left run piece more : List Char}
    (first : FirstRun isAsciiWord kind run rest) (cut : run ++ rest = piece ++ more)
    (spans : Spans Token.elseIf.pattern left piece more) :
    ∃ gap, run = ['e', 'l', 's', 'e'] ∧ rest = gap ++ (['i', 'f'] ++ more) ∧
      piece = run ++ (gap ++ ['i', 'f']) ∧ (∀ c ∈ gap, isAsciiBlank c = true) ∧
      runs isAsciiWord rest = gap :: ['i', 'f'] :: runs isAsciiWord more := by
  obtain ⟨gap, rfl, nonempty, blank, _, outside⟩ := spans_elseIf.mp spans
  rw [List.append_assoc, List.append_assoc] at cut
  obtain ⟨_, rfl, rfl⟩ := first.unique (firstRun_else nonempty blank) cut
  refine ⟨gap, rfl, rfl, rfl, blank, ?_⟩
  rw [(firstRun_gap nonempty blank).runs_eq, (firstRun_if outside).runs_eq]

/-- Where three runs are an `else if`, there is a match from the start of the first. -/
theorem exists_spans_of_startsElseIf {kind : Bool} {left run : List Char}
    (first : FirstRun isAsciiWord kind run rest)
    (turns : Text.TurnsAt isAsciiWord left (run ++ rest))
    (starts : startsElseIf (run :: runs isAsciiWord rest) = true) :
    ∃ piece more, run ++ rest = piece ++ more ∧ Spans Token.elseIf.pattern left piece more := by
  cases split : runs isAsciiWord rest with
  | nil =>
      rw [split] at starts
      cases starts
  | cons gap others =>
      cases others with
      | nil =>
          rw [split] at starts
          cases starts
      | cons second others =>
          rw [split] at starts
          simp only [startsElseIf, Bool.and_eq_true, beq_iff_eq] at starts
          obtain ⟨⟨rfl, blank⟩, rfl⟩ := starts
          obtain ⟨_, rest, rfl, gapRun, split⟩ := Text.exists_firstRun_of_runs_eq split
          obtain ⟨_, more, rfl, ifRun, _⟩ := Text.exists_firstRun_of_runs_eq split
          refine ⟨['e', 'l', 's', 'e'] ++ (gap ++ ['i', 'f']), more, by simp,
            spans_elseIf.mpr ⟨gap, rfl, gapRun.nonempty, List.all_eq_true.mp blank, ?_, ?_⟩⟩
          · obtain rfl : true = kind := first.all_eq
            exact first.before turns
          · obtain rfl := ifRun.all_eq
            exact ifRun.ends

end ElseIf

private theorem misses_elseIf {left right : List Char} {c : Char} (differs : c ≠ 'e') :
    Misses Token.elseIf.pattern left (c :: right) := by
  intro piece rest cut spans
  obtain ⟨gap, rfl, _⟩ := spans_elseIf.mp spans
  exact differs (List.cons.inj cut).1

private theorem countFrom_elseIf (text : List Char) :
    ∀ left, Text.TurnsAt isAsciiWord left text →
      countFrom Token.elseIf.pattern 0 left text =
        (runs isAsciiWord text).tails.countP startsElseIf := by
  have rounds := roundsTake_pattern .elseIf
  induction text using Text.runs_induction isAsciiWord with
  | nil =>
      intro left _
      rfl
  | append kind run rest first ih =>
      intro left turns
      rw [first.runs_eq, List.tails_cons, List.countP_cons, ← ih _ (first.turnsAt left)]
      by_cases starts : startsElseIf (run :: runs isAsciiWord rest) = true
      · obtain ⟨_, more, cut, spans⟩ := exists_spans_of_startsElseIf first turns starts
        obtain ⟨gap, _, rfl, rfl, blank, split⟩ := runs_of_spans_elseIf first cut spans
        rw [if_pos starts, ← List.append_assoc gap]
        apply Pattern.countFrom_of_spans_append rounds (mayBeEmpty_pattern trivial) spans
        · intro other others same otherSpans
          obtain ⟨gap', _, _, rfl, _, split'⟩ :=
            runs_of_spans_elseIf first (cut.trans same) otherSpans
          rw [split] at split'
          rw [(List.cons.inj split').1]
        · intro before c after inside
          apply misses_elseIf
          rintro rfl
          have member : 'e' ∈ gap ++ ['i', 'f'] := inside ▸ by simp
          cases List.mem_append.mp member with
          | inl inGap => exact absurd (blank 'e' inGap) (by decide)
          | inr inIf => exact absurd inIf (by decide)
      · rw [if_neg starts, Nat.add_zero]
        apply Pattern.countFrom_of_misses rounds
        intro before c after split
        refine startsWords_elseIf.misses first ?_ split
        intro piece more cut spans
        obtain ⟨gap, rfl, _, _, blank, split⟩ := runs_of_spans_elseIf first cut spans
        apply starts
        rw [split]
        simpa [startsElseIf] using blank

/-! Matches, character by character -/

private theorem misses_ternary {left right : List Char} {c : Char} (differs : c ≠ '?') :
    Misses Token.ternary.pattern left (c :: right) := by
  intro piece rest cut spans
  obtain ⟨blanks, rfl, _⟩ := spans_ternary.mp spans
  exact differs (List.cons.inj cut).1

/-- White space that a colon ends is all the white space there is. -/
theorem dropWhile_blanks {blanks rest : List Char} (all : ∀ c ∈ blanks, isAsciiBlank c = true) :
    (blanks ++ ':' :: rest).dropWhile isAsciiBlank = ':' :: rest := by
  rw [List.dropWhile_append_of_pos all]
  rfl

private theorem startsTernary_iff {before mark : Char} {text : List Char} :
    startsTernary (before :: mark :: text) = true ↔
      isAsciiWord before = true ∧ mark = '?' ∧
        ∃ blanks rest, text = blanks ++ ':' :: rest ∧ ∀ c ∈ blanks, isAsciiBlank c = true := by
  simp only [startsTernary, Bool.and_eq_true, beq_iff_eq, and_assoc]
  refine and_congr_right fun _ => and_congr_right fun _ => ?_
  constructor
  · intro colon
    obtain ⟨rest, behind⟩ := List.head?_eq_some_iff.mp colon
    refine ⟨text.takeWhile isAsciiBlank, rest, ?_, List.all_eq_true.mp List.all_takeWhile⟩
    rw [← behind, List.takeWhile_append_dropWhile]
  · intro split
    obtain ⟨blanks, rest, rfl, all⟩ := split
    rw [dropWhile_blanks all, List.head?_cons]

theorem exists_spans_ternary_iff {left text : List Char} {before mark : Char}
    (last : left.getLast? = some before) :
    (∃ piece rest, mark :: text = piece ++ rest ∧ Spans Token.ternary.pattern left piece rest) ↔
      startsTernary (before :: mark :: text) = true := by
  rw [startsTernary_iff]
  constructor
  · intro spanned
    obtain ⟨_, rest, cut, spans⟩ := spanned
    obtain ⟨blanks, rfl, all, word⟩ := spans_ternary.mp spans
    obtain ⟨rfl, rfl⟩ := List.cons.inj cut
    rw [last, Option.any_some, isWordChar_eq] at word
    exact ⟨word, rfl, blanks, rest, List.append_assoc .., all⟩
  · intro starts
    obtain ⟨word, rfl, blanks, rest, rfl, all⟩ := starts
    refine ⟨'?' :: (blanks ++ [':']), rest, by simp, spans_ternary.mpr ⟨blanks, rfl, all, ?_⟩⟩
    rw [last, Option.any_some, isWordChar_eq, word]

private theorem countFrom_of_spans_ternary {left text piece rest : List Char} {mark : Char}
    (cut : mark :: text = piece ++ rest) (spans : Spans Token.ternary.pattern left piece rest) :
    countFrom Token.ternary.pattern 0 left (mark :: text) =
      countFrom Token.ternary.pattern 0 (left ++ [mark]) text + 1 := by
  obtain ⟨blanks, rfl, all, _⟩ := spans_ternary.mp spans
  obtain ⟨rfl, rfl⟩ := List.cons.inj cut
  change countFrom _ 0 left (['?'] ++ (blanks ++ [':'] ++ rest)) = _
  apply Pattern.countFrom_of_spans_append (roundsTake_pattern .ternary)
    (mayBeEmpty_pattern trivial) spans
  · intro other others same otherSpans
    obtain ⟨blanks', rfl, all', _⟩ := spans_ternary.mp otherSpans
    have behind : blanks ++ ':' :: rest = blanks' ++ ':' :: others := by simpa using same
    have ends := congrArg (List.dropWhile isAsciiBlank) behind
    rw [dropWhile_blanks all, dropWhile_blanks all'] at ends
    rw [ends] at behind
    rw [List.append_cancel_right behind, List.singleton_append]
  · intro before c after inside
    apply misses_ternary
    rintro rfl
    have member : '?' ∈ blanks ++ [':'] := inside ▸ by simp
    cases List.mem_append.mp member with
    | inl inBlanks => exact absurd (all '?' inBlanks) (by decide)
    | inr inColon => exact absurd inColon (by decide)

private theorem countFrom_ternary (text : List Char) :
    ∀ left, countFrom Token.ternary.pattern 0 left text =
      (left.getLast?.toList ++ text).tails.countP startsTernary := by
  have rounds := roundsTake_pattern .ternary
  induction text with
  | nil =>
      intro left
      cases left.getLast? <;> rfl
  | cons mark text ih =>
      intro left
      have later : countFrom Token.ternary.pattern 0 (left ++ [mark]) text =
          (mark :: text).tails.countP startsTernary := by
        rw [ih, List.getLast?_concat]
        rfl
      have passed : Misses Token.ternary.pattern left (mark :: text) →
          countFrom Token.ternary.pattern 0 left (mark :: text) =
            countFrom Token.ternary.pattern 0 (left ++ [mark]) text := by
        intro misses
        rw [countFrom, misses.finds_eq_none rounds, Option.elim_none]
      cases last : left.getLast? with
      | none =>
          rw [passed, later]
          · rfl
          · intro piece rest _ spans
            obtain ⟨_, _, _, word⟩ := spans_ternary.mp spans
            rw [last] at word
            cases word
      | some before =>
          rw [Option.toList_some, List.singleton_append, List.tails_cons, List.countP_cons, ← later]
          by_cases starts : startsTernary (before :: mark :: text) = true
          · obtain ⟨piece, rest, cut, spans⟩ := (exists_spans_ternary_iff last).mpr starts
            rw [if_pos starts, countFrom_of_spans_ternary cut spans]
          · rw [if_neg starts, passed, Nat.add_zero]
            intro piece rest cut spans
            exact starts ((exists_spans_ternary_iff last).mp ⟨piece, rest, cut, spans⟩)

/-! Doubled signs -/

private theorem misses_pair {sign c : Char} {left right : List Char}
    (single : c = sign → ∀ d ∈ right.head?, d ≠ sign) :
    Misses (Token.pair sign).pattern left (c :: right) := by
  intro piece rest cut spans
  obtain rfl := spans_pair.mp spans
  obtain ⟨rfl, rfl⟩ := List.cons.inj cut
  exact single rfl c rfl rfl

/-- A run of signs has half as many matches as signs. -/
theorem countFrom_replicate {sign : Char} {rest : List Char} (ends : ∀ d ∈ rest.head?, d ≠ sign)
    (count : Nat) (left : List Char) :
    countFrom (Token.pair sign).pattern 0 left (List.replicate count sign ++ rest) =
      countFrom (Token.pair sign).pattern 0 (left ++ List.replicate count sign) rest +
        count / 2 := by
  have rounds := roundsTake_pattern (.pair sign)
  induction count using Nat.twoStepInduction generalizing left with
  | zero =>
      rw [List.replicate_zero, List.append_nil]
      rfl
  | one =>
      have misses : Misses (Token.pair sign).pattern left (sign :: rest) :=
        misses_pair fun _ => ends
      change countFrom _ 0 left (sign :: rest) = _
      rw [countFrom, misses.finds_eq_none rounds, Option.elim_none]
      rfl
  | more count ih _ =>
      have spans : Spans (Token.pair sign).pattern left [sign, sign]
          (List.replicate count sign ++ rest) := spans_pair.mpr rfl
      have counted := Pattern.countFrom_of_spans rounds (mayBeEmpty_pattern trivial) spans
        fun other _ _ otherSpans => spans_pair.mp otherSpans
      rw [ih, List.append_assoc] at counted
      exact counted.trans (by rw [Nat.add_div_right count Nat.two_pos]; rfl)

private theorem countFrom_pair (sign : Char) (text : List Char) :
    ∀ left, countFrom (Token.pair sign).pattern 0 left text = pairCount sign text := by
  have rounds := roundsTake_pattern (.pair sign)
  induction text using Text.runs_induction (· == sign) with
  | nil =>
      intro left
      rfl
  | append kind run rest first ih =>
      intro left
      rw [pairCount, first.runsOf_eq]
      cases kind with
      | true =>
          have signs : run = List.replicate run.length sign :=
            List.eq_replicate_iff.mpr ⟨rfl, fun c member => beq_iff_eq.mp (first.uniform c member)⟩
          have ends : ∀ d ∈ rest.head?, d ≠ sign := fun d head => by simpa using first.ends d head
          rw [if_pos rfl, List.map_cons, List.sum_cons, Nat.add_comm]
          rw [signs, countFrom_replicate ends, ih, List.length_replicate]
          rfl
      | false =>
          rw [if_neg Bool.false_ne_true, Pattern.countFrom_of_misses rounds, ih, pairCount]
          intro before c after split
          have differs : c ≠ sign := by simpa using first.uniform c (split ▸ by simp)
          exact misses_pair fun same => absurd same differs

/-- A token is counted as often as its pattern has matches. -/
theorem count_pattern {token : Token} (proper : token.IsProper) (text : List Char) :
    token.pattern.count text = token.countIn text := by
  rw [Pattern.count_eq_countFrom (roundsTake_pattern token) (mayBeEmpty_pattern proper)]
  cases token with
  | keyword word =>
      rw [countFrom_keyword proper text [] (Text.turnsAt_nil _ _), Token.countIn, keywordCount,
        Text.runsOf, List.count_filter]
      exact proper.2
  | elseIf => exact countFrom_elseIf text [] (Text.turnsAt_nil _ _)
  | ternary => exact countFrom_ternary text []
  | pair sign => exact countFrom_pair sign text []

end SnippetAudit.Complexity
