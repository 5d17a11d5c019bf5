import Mathlib.Algebra.Ring.Nat
import SnippetAudit.Proofs.Pattern.Counting
import SnippetAudit.Proofs.Scan.Phrases
import SnippetAudit.Proofs.Text.Letters
import SnippetAudit.Proofs.Text.Runs

/-!
Tokens: what the complexity score counts.

A token is a keyword, an `else if`, a conditional mark or a doubled sign. Each has a plain count,
which is said in terms of runs of characters, and a pattern. Here the pieces that the pattern
matches are described.
-/

set_option autoImplicit false

namespace SnippetAudit.Complexity

open Pattern (Spans)
open Scan (inTurn asciiBlanks contains_single contains_space spans_inTurn_cons spans_inTurn_append
  spans_word spans_star_one spans_plus_one)
open Text (FirstRun runs runsOf)

/-! Plain counts -/

/-- The letters and digits of ASCII, and the underscore. -/
def isAsciiWord (c : Char) : Bool :=
  c.isAlphanum || c == '_'

def isAsciiBlank (c : Char) : Bool :=
  asciiBlanks.contains c

/-- The longest runs of word characters that are the keyword. -/
def keywordCount (keyword : String) (text : List Char) : Nat :=
  (runsOf isAsciiWord text).count keyword.toList

/-- Two words with white space between them, and nothing else, are in front. -/
def startsElseIf : List (List Char) → Bool
  | first :: gap :: second :: _ =>
      first == ['e', 'l', 's', 'e'] && gap.all isAsciiBlank && second == ['i', 'f']
  | _ => false

/-- The runs that are the word `else` and have the word `if` behind the white space after them. -/
def elseIfCount (text : List Char) : Nat :=
  (runs isAsciiWord text).tails.countP startsElseIf

/-- A question mark is behind the first character, which is one of a word, and a colon is behind
the white space after the mark. -/
def startsTernary : List Char → Bool
  | c :: mark :: rest =>
      isAsciiWord c && mark == '?' && (rest.dropWhile isAsciiBlank).head? == some ':'
  | _ => false

/-- The question marks directly behind a word with a colon behind the white space after them. -/
def ternaryCount (text : List Char) : Nat :=
  text.tails.countP startsTernary

/-- Half the length of each longest run of the sign, added up. -/
def pairCount (sign : Char) (text : List Char) : Nat :=
  ((runsOf (· == sign) text).map fun run => run.length / 2).sum

inductive Token where
  | keyword (word : String)
  | elseIf
  | ternary
  | pair (sign : Char)
  deriving DecidableEq

def Token.countIn : Token → List Char → Nat
  | .keyword word => keywordCount word
  | .elseIf => elseIfCount
  | .ternary => ternaryCount
  | .pair sign => pairCount sign

/-! Patterns -/

def edge : Pattern := .look .wordEdge

def chars (text : List Char) : List Pattern :=
  text.map fun c => .one (.single c)

def Token.pattern : Token → Pattern
  | .keyword word => inTurn (edge :: (chars word.toList ++ [edge]))
  | .elseIf =>
      inTurn (edge :: (chars ['e', 'l', 's', 'e'] ++
        (.plus true (.one .space) :: (chars ['i', 'f'] ++ [edge]))))
  | .ternary =>
      inTurn [edge, .one (.single '?'), .star true (.one .space), .one (.single ':')]
  | .pair sign => inTurn (chars [sign, sign])

/-- A keyword is a word. -/
def Token.IsProper : Token → Prop
  | .keyword word => word.toList ≠ [] ∧ word.toList.all isAsciiWord = true
  | .elseIf => True
  | .ternary => True
  | .pair _ => True

instance : DecidablePred Token.IsProper
  | .keyword _ => inferInstanceAs (Decidable (_ ∧ _))
  | .elseIf => .isTrue trivial
  | .ternary => .isTrue trivial
  | .pair _ => .isTrue trivial

theorem isWordChar_eq (c : Char) : isWordChar c = isAsciiWord c := by
  have ranges : CharSet.word = ⟨[(48, 57), (65, 90), (95, 95), (97, 122)]⟩ := by decide
  have same : isWordChar c = true ↔ isAsciiWord c = true := by
    simp only [isWordChar, ranges, Scan.contains_iff, isAsciiWord, Char.isAlphanum,
      Text.isAlpha_iff, Char.isDigit, Bool.or_eq_true, Bool.and_eq_true, beq_iff_eq,
      decide_eq_true_eq, ← Char.toNat_inj, UInt32.le_iff_toNat_le]
    simp
    omega
  exact Bool.eq_iff_iff.mpr same

private theorem mayBeEmpty_inTurn (patterns : List Pattern) :
    (inTurn patterns).mayBeEmpty = patterns.all Pattern.mayBeEmpty := by
  induction patterns with
  | nil => rfl
  | cons pattern patterns ih =>
      cases patterns with
      | nil => exact (Bool.and_true _).symm
      | cons next patterns => exact congrArg (pattern.mayBeEmpty && ·) ih

theorem mayBeEmpty_pattern {token : Token} (proper : token.IsProper) :
    token.pattern.mayBeEmpty = false := by
  cases token with
  | keyword word =>
      obtain ⟨c, rest, split⟩ := List.exists_cons_of_ne_nil proper.1
      rw [Token.pattern, mayBeEmpty_inTurn, split]
      rfl
  | elseIf => rfl
  | ternary => rfl
  | pair sign => rfl

theorem roundsTake_pattern (token : Token) : token.pattern.roundsTake = true := by
  cases token with
  | keyword word =>
      apply Scan.roundsTake_inTurn
      intro pattern member
      simp only [chars, List.mem_cons, List.mem_append, List.mem_map, List.not_mem_nil,
        or_false] at member
      rcases member with rfl | ⟨c, _, rfl⟩ | rfl <;> rfl
  | elseIf => rfl
  | ternary => rfl
  | pair sign => rfl

/-! Pieces that the patterns match -/

/-- A word that starts or ends here is not continued. -/
def Outside (neighbour : Option Char) : Prop :=
  ∀ c ∈ neighbour, isAsciiWord c = false

theorem any_isWordChar_eq_false_iff {neighbour : Option Char} :
    neighbour.any isWordChar = false ↔ Outside neighbour := by
  cases neighbour with
  | none => exact ⟨fun _ _ member => absurd member (by simp), fun _ => rfl⟩
  | some c => simp [Outside, isWordChar_eq]

private theorem spans_edge {left piece right : List Char} :
    Spans edge left piece right ↔
      piece = [] ∧ left.getLast?.any isWordChar ≠ right.head?.any isWordChar := by
  constructor
  · intro spans
    cases spans with
    | look holds => exact ⟨rfl, bne_iff_ne.mp holds⟩
  · intro held
    obtain ⟨rfl, differs⟩ := held
    exact .look (bne_iff_ne.mpr differs)

theorem spans_edge_cons {patterns : List Pattern} {left piece right : List Char} :
    Spans (inTurn (edge :: patterns)) left piece right ↔
      left.getLast?.any isWordChar ≠ (piece ++ right).head?.any isWordChar ∧
        Spans (inTurn patterns) left piece right := by
  rw [spans_inTurn_cons]
  constructor
  · intro split
    obtain ⟨first, rest, rfl, atEdge, spans⟩ := split
    obtain ⟨rfl, differs⟩ := spans_edge.mp atEdge
    rw [List.append_nil] at spans
    exact ⟨differs, spans⟩
  · intro held
    exact ⟨[], piece, rfl, spans_edge.mpr ⟨rfl, held.1⟩, by rw [List.append_nil]; exact held.2⟩

theorem spans_chars_append {word : List Char} {patterns : List Pattern}
    {left piece right : List Char} :
    Spans (inTurn (chars word ++ patterns)) left piece right ↔
      ∃ rest, piece = word ++ rest ∧ Spans (inTurn patterns) (left ++ word) rest right := by
  rw [spans_inTurn_append]
  constructor
  · intro split
    obtain ⟨first, rest, rfl, wordSpans, spans⟩ := split
    obtain rfl := spans_word.mp wordSpans
    exact ⟨rest, rfl, spans⟩
  · intro split
    obtain ⟨rest, rfl, spans⟩ := split
    exact ⟨word, rest, rfl, spans_word.mpr rfl, spans⟩

/-- At the start of a word, an edge says that no other word ends there. -/
theorem edge_before_iff {left right : List Char} {c : Char} (word : isAsciiWord c = true) :
    left.getLast?.any isWordChar ≠ (c :: right).head?.any isWordChar ↔ Outside left.getLast? := by
  rw [List.head?_cons, Option.any_some, isWordChar_eq, word, ne_eq, Bool.not_eq_true,
    any_isWordChar_eq_false_iff]

/-- At the end of a word, an edge says that no other word starts there. -/
theorem edge_after_iff {left word right : List Char} (nonempty : word ≠ [])
    (all : ∀ c ∈ word, isAsciiWord c = true) :
    (left ++ word).getLast?.any isWordChar ≠ right.head?.any isWordChar ↔
      Outside right.head? := by
  have last := all _ (List.getLast_mem nonempty)
  rw [List.getLast?_append_of_ne_nil left nonempty, List.getLast?_eq_getLast_of_ne_nil nonempty,
    Option.any_some, isWordChar_eq, last, ne_comm, ne_eq, Bool.not_eq_true,
    any_isWordChar_eq_false_iff]

/-- A keyword is matched exactly where it is a whole run of word characters. -/
theorem spans_keyword {word : String} (proper : (Token.keyword word).IsProper)
    {left piece right : List Char} :
    Spans (Token.keyword word).pattern left piece right ↔
      piece = word.toList ∧ Outside left.getLast? ∧
        FirstRun isAsciiWord true word.toList right := by
  have nonempty := proper.1
  have all := List.all_eq_true.mp proper.2
  obtain ⟨c, rest, start⟩ := List.exists_cons_of_ne_nil nonempty
  have first : isAsciiWord c = true := all c (start ▸ List.mem_cons_self)
  rw [Token.pattern, spans_edge_cons, spans_chars_append]
  constructor
  · intro held
    obtain ⟨before, _, rfl, last⟩ := held
    obtain ⟨rfl, after⟩ := spans_edge.mp last
    rw [List.append_nil, start, List.cons_append, edge_before_iff first] at before
    exact ⟨List.append_nil _, before, nonempty, all, (edge_after_iff nonempty all).mp after⟩
  · intro held
    obtain ⟨rfl, before, run⟩ := held
    refine ⟨?_, [], (List.append_nil _).symm, spans_edge.mpr ⟨rfl, ?_⟩⟩
    · rw [start, List.cons_append]
      exact (edge_before_iff first).mpr before
    · exact (edge_after_iff nonempty all).mpr run.ends

theorem contains_space_iff {c : Char} :
    CharSet.space.contains c = true ↔ isAsciiBlank c = true := by
  rw [contains_space, isAsciiBlank, List.contains_iff_mem]

theorem spans_elseIf {left piece right : List Char} :
    Spans Token.elseIf.pattern left piece right ↔
      ∃ gap, piece = ['e', 'l', 's', 'e'] ++ (gap ++ ['i', 'f']) ∧ gap ≠ [] ∧
        (∀ c ∈ gap, isAsciiBlank c = true) ∧ Outside left.getLast? ∧ Outside right.head? := by
  have first : isAsciiWord 'e' = true := by decide
  have second : ∀ c ∈ ['i', 'f'], isAsciiWord c = true := List.all_eq_true.mp (by decide)
  rw [Token.pattern, spans_edge_cons, spans_chars_append]
  constructor
  · intro held
    obtain ⟨before, _, rfl, rest⟩ := held
    obtain ⟨gap, _, rfl, gapSpans, rest⟩ := spans_inTurn_cons.mp rest
    obtain ⟨_, rfl, last⟩ := spans_chars_append.mp rest
    obtain ⟨rfl, after⟩ := spans_edge.mp last
    obtain ⟨nonempty, all⟩ := spans_plus_one.mp gapSpans
    exact ⟨gap, by rw [List.append_nil], nonempty,
      fun c member => contains_space_iff.mp (all c member),
      (edge_before_iff first).mp before, (edge_after_iff (List.cons_ne_nil _ _) second).mp after⟩
  · intro held
    obtain ⟨gap, rfl, nonempty, all, before, after⟩ := held
    refine ⟨(edge_before_iff first).mpr before, gap ++ ['i', 'f'], rfl, ?_⟩
    refine spans_inTurn_cons.mpr ⟨gap, ['i', 'f'], rfl, spans_plus_one.mpr ⟨nonempty, ?_⟩, ?_⟩
    · exact fun c member => contains_space_iff.mpr (all c member)
    · refine spans_chars_append.mpr ⟨[], rfl, spans_edge.mpr ⟨rfl, ?_⟩⟩
      exact (edge_after_iff (List.cons_ne_nil _ _) second).mpr after

theorem spans_ternary {left piece right : List Char} :
    Spans Token.ternary.pattern left piece right ↔
      ∃ blanks, piece = '?' :: (blanks ++ [':']) ∧ (∀ c ∈ blanks, isAsciiBlank c = true) ∧
        left.getLast?.any isWordChar = true := by
  have mark : isWordChar '?' = false := by decide
  rw [Token.pattern, spans_edge_cons, spans_inTurn_cons]
  constructor
  · intro held
    obtain ⟨before, _, _, rfl, first, rest⟩ := held
    obtain ⟨blanks, _, rfl, blanksSpans, last⟩ := spans_inTurn_cons.mp rest
    cases first with
    | one question =>
        cases last with
        | one colon =>
            rw [contains_single.mp question] at before ⊢
            rw [contains_single.mp colon]
            simp only [List.cons_append, List.head?_cons, Option.any_some, mark, ne_eq,
              Bool.not_eq_false] at before
            exact ⟨blanks, rfl,
              fun c member => contains_space_iff.mp (spans_star_one.mp blanksSpans c member),
              before⟩
  · intro held
    obtain ⟨blanks, rfl, all, before⟩ := held
    refine ⟨?_, ['?'], blanks ++ [':'], rfl, .one (contains_single.mpr rfl), ?_⟩
    · rw [before, List.cons_append, List.head?_cons, Option.any_some, mark]
      exact Bool.noConfusion
    · refine spans_inTurn_cons.mpr ⟨blanks, [':'], rfl, spans_star_one.mpr ?_, ?_⟩
      · exact fun c member => contains_space_iff.mpr (all c member)
      · exact .one (contains_single.mpr rfl)

theorem spans_pair {sign : Char} {left piece right : List Char} :
    Spans (Token.pair sign).pattern left piece right ↔ piece = [sign, sign] :=
  spans_word

end SnippetAudit.Complexity
