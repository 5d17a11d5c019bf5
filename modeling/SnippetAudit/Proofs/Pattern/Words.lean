import SnippetAudit.Proofs.Pattern.Naming
import SnippetAudit.Proofs.Scan.Phrases
import SnippetAudit.Proofs.Text.Runs

/-!
Patterns that name whole words.

If what is matched in front of the name ends outside of words, and what is matched behind it starts
outside of words, the name cannot be a part of a longer word. The same holds if nothing is behind
the name, because a greedy repetition then takes all that it can. Both conditions are read off the
forms of the pattern, without regard to where its matches are.
-/

set_option autoImplicit false

namespace SnippetAudit.Pattern

open Text (FirstRun runsOf)

/-! The ends of a match -/

/-- Whether no character of the set belongs to a word. -/
def avoidsWords (set : CharSet) : Bool :=
  set.ranges.all fun range => CharSet.word.ranges.all fun letters =>
    range.2 < letters.1 || letters.2 < range.1

/-- Whether no word character stands in front of the place where the pattern is left. `outside`
tells whether this is known of the place where it is entered. -/
def leftOutside (outside : Bool) : Pattern → Bool
  | .empty => outside
  | .one set => avoidsWords set
  | .look anchor => outside || anchor = .lineStart
  | .seq first second => leftOutside (leftOutside outside first) second
  | .alt first second => leftOutside outside first && leftOutside outside second
  | .star _ inner => outside && leftOutside true inner
  | .plus _ inner => leftOutside outside inner && leftOutside true inner
  | .name inner => leftOutside outside inner

/-- Whether no word character stands behind the place where the pattern is entered. `outside` tells
whether this is known of the place where it is left. -/
def enteredOutside (outside : Bool) : Pattern → Bool
  | .empty => outside
  | .one set => avoidsWords set
  | .look _ => outside
  | .seq first second => enteredOutside (enteredOutside outside second) first
  | .alt first second => enteredOutside outside first && enteredOutside outside second
  | .star _ inner => outside && enteredOutside true inner
  | .plus _ inner => enteredOutside false inner
  | .name inner => enteredOutside outside inner

private theorem isWordChar_of_avoidsWords {set : CharSet} (avoids : avoidsWords set = true)
    {c : Char} (inside : set.contains c = true) : isWordChar c = false := by
  rw [Bool.eq_false_iff]
  intro letter
  obtain ⟨range, member, low, high⟩ := Scan.contains_iff.mp inside
  obtain ⟨letters, known, least, most⟩ := Scan.contains_iff.mp letter
  have apart := List.all_eq_true.mp (List.all_eq_true.mp avoids range member) letters known
  rw [Bool.or_eq_true, decide_eq_true_eq, decide_eq_true_eq] at apart
  omega

private theorem any_of_lineStart {before after : Option Char}
    (holds : Anchor.lineStart.holds before after = true) : before.any isWordChar = false := by
  cases before with
  | none => rfl
  | some c =>
      obtain rfl : c = '\n' := by simpa [Anchor.holds] using holds
      decide

theorem Spans.any_last {pattern : Pattern} {left piece right : List Char}
    (spans : Spans pattern left piece right) {outside : Bool}
    (entered : outside = true → left.getLast?.any isWordChar = false)
    (leaves : leftOutside outside pattern = true) :
    (left ++ piece).getLast?.any isWordChar = false := by
  induction spans generalizing outside with
  | empty =>
      rw [List.append_nil]
      exact entered leaves
  | one inside =>
      rw [List.getLast?_concat]
      exact isWordChar_of_avoidsWords leaves inside
  | look holds =>
      rw [List.append_nil]
      rcases Bool.or_eq_true_iff.mp leaves with known | start
      · exact entered known
      · rw [of_decide_eq_true start] at holds
        exact any_of_lineStart holds
  | seq _ _ firstIH secondIH =>
      rw [← List.append_assoc]
      exact secondIH (firstIH entered) leaves
  | altFirst _ ih => exact ih entered (Bool.and_eq_true_iff.mp leaves).1
  | altSecond _ ih => exact ih entered (Bool.and_eq_true_iff.mp leaves).2
  | done =>
      rw [List.append_nil]
      exact entered (Bool.and_eq_true_iff.mp leaves).1
  | round _ _ innerIH restIH =>
      obtain ⟨known, keeps⟩ := Bool.and_eq_true_iff.mp leaves
      rw [← List.append_assoc]
      exact restIH (fun _ => innerIH (fun _ => entered known) keeps)
        (Bool.and_eq_true_iff.mpr ⟨rfl, keeps⟩)
  | plus _ _ innerIH restIH =>
      obtain ⟨first, keeps⟩ := Bool.and_eq_true_iff.mp leaves
      rw [← List.append_assoc]
      exact restIH (fun _ => innerIH entered first) (Bool.and_eq_true_iff.mpr ⟨rfl, keeps⟩)
  | name _ ih => exact ih entered leaves

theorem Spans.any_head {pattern : Pattern} {left piece right : List Char}
    (spans : Spans pattern left piece right) {outside : Bool}
    (exited : outside = true → right.head?.any isWordChar = false)
    (enters : enteredOutside outside pattern = true) :
    (piece ++ right).head?.any isWordChar = false := by
  induction spans generalizing outside with
  | empty => exact exited enters
  | one inside => exact isWordChar_of_avoidsWords enters inside
  | look => exact exited enters
  | seq _ _ firstIH secondIH =>
      rw [List.append_assoc]
      exact firstIH (secondIH exited) enters
  | altFirst _ ih => exact ih exited (Bool.and_eq_true_iff.mp enters).1
  | altSecond _ ih => exact ih exited (Bool.and_eq_true_iff.mp enters).2
  | done => exact exited (Bool.and_eq_true_iff.mp enters).1
  | round _ _ innerIH restIH =>
      rw [List.append_assoc]
      exact innerIH (fun _ => restIH exited enters) (Bool.and_eq_true_iff.mp enters).2
  | plus _ _ innerIH _ =>
      rw [List.append_assoc]
      exact innerIH Bool.noConfusion enters
  | name _ ih => exact ih exited enters

/-! Names -/

/-- The hit names a longest run of word characters in the text behind the place. -/
structure NamesRun (left right : List Char) (hit : Hit) (before label rest : List Char) : Prop where
  split : right = before ++ (label ++ rest)
  starts : (left ++ before).getLast?.any isWordChar = false
  run : FirstRun isWordChar true label rest
  mark : hit.mark = .spanning (left ++ before).length (left ++ before ++ label).length

/-- Whether the pattern names a word, and nothing that it matches next to the word can be a part of
it. `outside` tells whether no word character is known to stand in front. -/
def namesWord (outside : Bool) : Pattern → Bool
  | .name inner => outside && inner = .plus true (.one .word)
  | .seq (.name inner) tail =>
      outside && inner = .plus true (.one .word) && enteredOutside false tail && tail.marked = []
  | .seq first second => first.marked = [] && namesWord (leftOutside outside first) second
  | _ => false

private theorem forall_of_any {neighbour : Option Char}
    (outside : neighbour.any isWordChar = false) : ∀ c ∈ neighbour, isWordChar c = false := by
  intro c member
  rwa [Option.mem_def.mp member] at outside

/-- A greedy repetition takes all that it can, if something is found from there on. -/
theorem finds_star_one {set : CharSet} {onward : Onward} {left run rest : List Char} {hit : Hit}
    (inside : ∀ c ∈ run, set.contains c = true) (stops : ∀ c ∈ rest.head?, set.contains c = false)
    (found : onward (left ++ run) rest = some hit) :
    finds (.star true (.one set)) onward left (run ++ rest) = some hit := by
  induction run generalizing left with
  | nil =>
      have noRound : ∀ next, finds (.one set) next left rest = none := by
        intro next
        cases rest with
        | nil => exact finds_one_nil next left set
        | cons c rest => rw [finds_one_cons, stops c rfl, if_neg Bool.false_ne_true]
      rw [List.append_nil] at found
      rw [List.nil_append, finds_star _ _ _ _ rfl, noRound]
      exact found
  | cons c run ih =>
      obtain ⟨first, others⟩ := List.forall_mem_cons.mp inside
      rw [List.append_cons] at found
      rw [List.cons_append, finds_star _ _ _ _ rfl, finds_one_cons, if_pos first, ih others found]
      rfl

private theorem finds_plus_one {set : CharSet} {onward : Onward} {left run rest : List Char}
    {hit : Hit}
    (first : FirstRun set.contains true run rest) (found : onward (left ++ run) rest = some hit) :
    finds (.plus true (.one set)) onward left (run ++ rest) = some hit := by
  obtain ⟨c, others, rfl⟩ := List.exists_cons_of_ne_nil first.nonempty
  obtain ⟨letter, more⟩ := List.forall_mem_cons.mp first.uniform
  rw [List.append_cons] at found
  rw [List.cons_append, finds_plus _ _ _ _ rfl, finds_one_cons, if_pos letter]
  exact finds_star_one more first.ends found

private theorem exists_namesRun_of_finds_name {left right : List Char} {hit : Hit}
    (starts : left.getLast?.any isWordChar = false)
    (found : finds (.name (.plus true (.one .word))) ending left right = some hit) :
    ∃ label rest, NamesRun left right hit [] label rest := by
  rw [finds_name] at found
  obtain ⟨closed, inner, opened⟩ := Option.map_eq_some_iff.mp found
  -- Nothing is behind the name, so its first attempt is not taken back: it is the whole run.
  cases right with
  | nil =>
      rw [finds_plus _ _ _ _ rfl, finds_one_nil] at inner
      cases inner
  | cons c right =>
      have letter : isWordChar c = true := by
        rw [finds_plus _ _ _ _ rfl, finds_one_cons] at inner
        split at inner
        · assumption
        · cases inner
      obtain ⟨label, rest, split, run⟩ := Text.exists_firstRun isWordChar c right
      rw [letter] at run
      rw [split, finds_plus_one run rfl] at inner
      cases inner
      refine ⟨label, rest, split, ?_, run, ?_⟩
      · rwa [List.append_nil]
      · rw [← opened, List.append_nil]
        rfl

private theorem exists_namesRun_of_finds_seq {tail : Pattern} (rounds : tail.roundsTake = true)
    (unmarked : tail.marked = []) (enters : enteredOutside false tail = true)
    {left right : List Char} {hit : Hit} (starts : left.getLast?.any isWordChar = false)
    (found : finds (.seq (.name (.plus true (.one .word))) tail) ending left right = some hit) :
    ∃ label rest, NamesRun left right hit [] label rest := by
  rw [finds_seq] at found
  obtain ⟨label, rest, next, rfl, behind, traces⟩ := findsTraces rfl _ _ _ _ found
  obtain ⟨piece, others, rfl, tailTraces⟩ := traces_of_finds rounds behind
  obtain rfl := tailTraces.hit_eq unmarked
  cases traces with
  | name inner =>
      obtain rfl := inner.hit_eq rfl
      obtain ⟨nonempty, letters⟩ := Scan.spans_plus_one.mp inner.spans
      -- The name may have been shortened for the sake of the tail, but not within a word.
      have ends := tailTraces.spans.any_head Bool.noConfusion enters
      refine ⟨label, piece ++ others, rfl, ?_, ⟨nonempty, letters, forall_of_any ends⟩, ?_⟩
      · rwa [List.append_nil]
      · rw [List.append_nil]
        rfl

theorem NamesRun.behind {left piece right before label rest : List Char} {hit : Hit}
    (run : NamesRun (left ++ piece) right hit before label rest) :
    NamesRun left (piece ++ right) hit (piece ++ before) label rest where
  split := by rw [run.split, List.append_assoc]
  starts := by
    rw [← List.append_assoc]
    exact run.starts
  run := run.run
  mark := by
    rw [← List.append_assoc]
    exact run.mark

private theorem exists_namesRun_of_finds {pattern : Pattern} (rounds : pattern.roundsTake = true)
    {outside : Bool} (names : namesWord outside pattern = true) {left right : List Char}
    (entered : outside = true → left.getLast?.any isWordChar = false) {hit : Hit}
    (found : finds pattern ending left right = some hit) :
    ∃ before label rest, NamesRun left right hit before label rest := by
  fun_induction namesWord outside pattern generalizing left right with
  | case1 outside inner =>
      obtain ⟨known, word⟩ := Bool.and_eq_true_iff.mp names
      rw [of_decide_eq_true word] at found
      exact ⟨[], exists_namesRun_of_finds_name (entered known) found⟩
  | case2 outside inner tail =>
      obtain ⟨names, unmarked⟩ := Bool.and_eq_true_iff.mp names
      obtain ⟨names, enters⟩ := Bool.and_eq_true_iff.mp names
      obtain ⟨known, word⟩ := Bool.and_eq_true_iff.mp names
      rw [of_decide_eq_true word] at found
      exact ⟨[], exists_namesRun_of_finds_seq (Bool.and_eq_true_iff.mp rounds).2
        (of_decide_eq_true unmarked) enters (entered known) found⟩
  | case3 outside first second _ ih =>
      obtain ⟨firstRounds, secondRounds⟩ := Bool.and_eq_true_iff.mp rounds
      obtain ⟨unmarked, names⟩ := Bool.and_eq_true_iff.mp names
      rw [finds_seq] at found
      obtain ⟨piece, rest, next, rfl, behind, traces⟩ := findsTraces firstRounds _ _ _ _ found
      obtain rfl := traces.hit_eq (of_decide_eq_true unmarked)
      obtain ⟨before, label, others, run⟩ :=
        ih secondRounds names (traces.spans.any_last entered) behind
      exact ⟨piece ++ before, label, others, run.behind⟩
  | case4 => cases names

/-- Every name is a longest run of word characters in the text. -/
theorem mem_runsOf_of_mem_names {pattern : Pattern} (rounds : pattern.roundsTake = true)
    (names : namesWord false pattern = true) {text label : List Char}
    (member : label ∈ pattern.names text) : label ∈ runsOf isWordChar text := by
  obtain ⟨found, occurs, named⟩ := List.mem_filterMap.mp member
  obtain ⟨left, right, hit, rfl, finds, rfl⟩ :=
    mem_candidates.mp (occurrences_subset pattern text occurs)
  obtain ⟨before, word, rest, run⟩ := exists_namesRun_of_finds rounds names Bool.noConfusion finds
  have whole : left ++ right = left ++ before ++ (word ++ rest) := by
    rw [run.split, List.append_assoc]
  have length : (left ++ before ++ word).length = (left ++ before).length + word.length :=
    List.length_append
  have cut : slice (left ++ right) (left ++ before).length (left ++ before ++ word).length =
      word := by
    rw [whole, length, slice_between]
  rw [matchFrom, run.mark] at named
  obtain rfl : word = label := cut.symm.trans (Option.some.inj named)
  rw [whole]
  exact run.run.mem_runsOf (forall_of_any run.starts)

end SnippetAudit.Pattern
