import SnippetAudit.Proofs.Pattern.Counting
import SnippetAudit.Proofs.Pattern.Naming

/-!
Matches are leftmost.

A match is met where the walk along a text comes to it: in front of it is the end of the match
before, or the start of the text, and from there on no other match starts. If one part of the
pattern is marked, the name of the match is the piece between what the parts in front of it and the
parts behind it match.
-/

set_option autoImplicit false

namespace SnippetAudit.Pattern

/-- The text in front of a place, as the walk has come along it: what was passed up to the end of a
match, and a stretch behind that where no match starts. -/
structure Clear (pattern : Pattern) (passed between right : List Char) : Prop where
  closed : passed = [] ∨
    ∃ earlier last, passed = earlier ++ last ∧ Spans pattern earlier last (between ++ right)
  misses : ∀ before c after, between = before ++ c :: after →
    Misses pattern (passed ++ before) (c :: after ++ right)

section Walk

variable {pattern : Pattern} (rounds : pattern.roundsTake = true)
include rounds

private theorem misses_of_finds_eq_none {left right : List Char}
    (missing : finds pattern ending left right = none) : Misses pattern left right := by
  intro piece rest split spans
  have isSome : (finds pattern ending left right).isSome = true :=
    (findsSpans rounds ..).mpr ⟨piece, rest, split, spans, rfl⟩
  rw [missing] at isSome
  cases isSome

/-- Where nothing is found, the stretch gets longer. -/
theorem Clear.pass {passed between right : List Char} {c : Char}
    (clear : Clear pattern passed between (c :: right))
    (missing : finds pattern ending (passed ++ between) (c :: right) = none) :
    Clear pattern passed (between ++ [c]) right where
  closed := by
    rw [List.append_assoc]
    exact clear.closed
  misses := by
    intro before d after split
    rcases List.eq_nil_or_concat after with rfl | ⟨most, last, rfl⟩
    · obtain ⟨rfl, same⟩ := List.append_inj' split rfl
      cases same
      exact misses_of_finds_eq_none rounds missing
    · have shorter : between ++ [c] = (before ++ d :: most) ++ [last] := by
        rw [split, List.concat_eq_append, List.append_assoc, List.cons_append]
      obtain ⟨same, ends⟩ := List.append_inj' shorter rfl
      cases ends
      have earlier := clear.misses before d most same
      rwa [List.concat_eq_append, ← List.cons_append, List.append_assoc]

omit rounds in
/-- Behind a match the stretch starts anew. -/
theorem Clear.restart {left piece rest : List Char} (spans : Spans pattern left piece rest) :
    Clear pattern (left ++ piece) [] rest where
  closed := .inr ⟨left, piece, rfl, spans⟩
  misses := by
    intro before c after split
    cases before <;> cases split

/-- A match that is met stands behind a stretch without one. -/
theorem exists_clear_of_mem_metFrom (taking : pattern.mayBeEmpty = false)
    {passed between right : List Char} (clear : Clear pattern passed between right) {found : Match}
    (member : found ∈ metFrom pattern 0 (passed ++ between) right) :
    ∃ before gap piece rest hit,
      passed ++ between ++ right = before ++ gap ++ (piece ++ rest) ∧
      Clear pattern before gap (piece ++ rest) ∧
      Traces pattern (before ++ gap) piece rest
        { stop := (before ++ gap ++ piece).length, mark := .absent } hit ∧
      matchFrom (before ++ gap).length hit = found := by
  induction size : right.length using Nat.strongRecOn generalizing passed between right with
  | ind n ih =>
      cases right with
      | nil =>
          rw [metFrom] at member
          cases member
      | cons c right =>
          rw [metFrom] at member
          cases finding : finds pattern ending (passed ++ between) (c :: right) with
          | none =>
              rw [finding, Option.elim_none, List.append_assoc] at member
              rw [List.append_cons, List.append_assoc passed]
              refine ih right.length ?_ (clear.pass rounds finding) member rfl
              rw [← size, List.length_cons]
              omega
          | some hit =>
              obtain ⟨piece, rest, split, traces⟩ := traces_of_finds rounds finding
              rw [finding, Option.elim_some, List.mem_cons] at member
              rcases member with rfl | later
              · rw [split] at clear ⊢
                exact ⟨passed, between, piece, rest, hit, rfl, clear, traces, rfl⟩
              · -- the rest of the piece is passed over, and the walk goes on behind it
                have nonempty := traces.spans.ne_nil taking
                obtain ⟨first, others, rfl⟩ := List.exists_cons_of_ne_nil nonempty
                rw [List.cons_append] at split
                obtain ⟨rfl, rfl⟩ := List.cons.inj split
                have stop : hit.stop = (passed ++ between ++ c :: others).length := traces.stop_eq
                have skip : hit.stop - ((passed ++ between).length + 1) = others.length := by
                  rw [stop, List.length_append, List.length_cons]
                  omega
                rw [skip, metFrom_skip, ← List.append_cons, ← List.append_nil (_ ++ _ :: others)]
                  at later
                have shorter : rest.length < n := by
                  rw [← size, List.length_cons, List.length_append]
                  omega
                have behind := ih rest.length shorter (Clear.restart traces.spans) later rfl
                rw [List.append_nil, List.append_assoc _ (_ :: others) rest] at behind
                exact behind

end Walk

/-! Names between two rows of parts -/

/-- Parts in a row, with something behind them. -/
def row (parts : List Pattern) (last : Pattern) : Pattern :=
  parts.foldr .seq last

theorem spans_row_cons {part : Pattern} {parts : List Pattern} {left piece right : List Char}
    {last : Pattern} (spans : Spans (row (part :: parts) last) left piece right) :
    ∃ first rest, piece = first ++ rest ∧ Spans part left first (rest ++ right) ∧
      Spans (row parts last) (left ++ first) rest right := by
  cases spans with
  | seq first rest => exact ⟨_, _, rfl, first, rest⟩

theorem spans_row_of_skipped {parts : List Pattern}
    (skipped : ∀ part ∈ parts, ∀ left right, Spans part left [] right) {last : Pattern}
    {left piece right : List Char} (spans : Spans last left piece right) :
    Spans (row parts last) left piece right := by
  induction parts with
  | nil => exact spans
  | cons part parts ih =>
      obtain ⟨first, others⟩ := List.forall_mem_cons.mp skipped
      have rest : Spans (row parts last) (left ++ []) piece right := by
        rw [List.append_nil]
        exact ih others
      exact .seq (first left (piece ++ right)) rest

theorem roundsTake_row {parts : List Pattern} {last : Pattern}
    (each : ∀ part ∈ parts, part.roundsTake = true) (lastTakes : last.roundsTake = true) :
    (row parts last).roundsTake = true := by
  induction parts with
  | nil => exact lastTakes
  | cons part parts ih =>
      obtain ⟨first, others⟩ := List.forall_mem_cons.mp each
      exact Bool.and_eq_true_iff.mpr ⟨first, ih others⟩

theorem mayBeEmpty_row {parts : List Pattern} {last : Pattern}
    (taking : last.mayBeEmpty = false) : (row parts last).mayBeEmpty = false := by
  induction parts with
  | nil => exact taking
  | cons part parts ih => exact Bool.and_eq_false_iff.mpr (.inr ih)

private theorem traces_row {parts : List Pattern} (unmarked : ∀ part ∈ parts, part.marked = [])
    {last : Pattern} {left piece right : List Char} {next hit : Hit}
    (traces : Traces (row parts last) left piece right next hit) :
    ∃ before after, piece = before ++ after ∧
      Spans (row parts .empty) left before (after ++ right) ∧
      Traces last (left ++ before) after right next hit := by
  induction parts generalizing left piece hit with
  | nil => exact ⟨[], piece, rfl, .empty, by rwa [List.append_nil]⟩
  | cons part parts ih =>
      obtain ⟨plain, others⟩ := List.forall_mem_cons.mp unmarked
      cases traces with
      | seq first rest =>
          obtain rfl := first.hit_eq plain
          obtain ⟨before, after, rfl, spans, behind⟩ := ih others rest
          refine ⟨_ ++ before, after, (List.append_assoc ..).symm, .seq ?_ spans, ?_⟩
          · have whole := first.spans
            rwa [List.append_assoc] at whole
          · rwa [← List.append_assoc]

/-- A name stands between what the parts in front of it and those behind it match, in a match that
is met. -/
theorem exists_clear_of_mem_names {parts : List Pattern} {inner tail : Pattern}
    (rounds : (row parts (.seq (.name inner) tail)).roundsTake = true)
    (taking : (row parts (.seq (.name inner) tail)).mayBeEmpty = false)
    (unmarked : ∀ part ∈ parts, part.marked = []) (innerPlain : inner.marked = [])
    (tailPlain : tail.marked = []) {text label : List Char}
    (member : label ∈ (row parts (.seq (.name inner) tail)).names text) :
    ∃ passed between before after rest,
      text = passed ++ between ++ (before ++ (label ++ after) ++ rest) ∧
      Clear (row parts (.seq (.name inner) tail)) passed between
        (before ++ (label ++ after) ++ rest) ∧
      Spans (row parts .empty) (passed ++ between) before (label ++ after ++ rest) ∧
      Spans inner (passed ++ between ++ before) label (after ++ rest) ∧
      Spans tail (passed ++ between ++ before ++ label) after rest := by
  obtain ⟨found, occurs, named⟩ := List.mem_filterMap.mp member
  rw [occurrences_eq_metFrom rounds taking] at occurs
  have start : Clear (row parts (.seq (.name inner) tail)) [] [] text :=
    ⟨.inl rfl, fun before c after split => by cases before <;> cases split⟩
  obtain ⟨passed, between, piece, rest, hit, split, clear, traces, rfl⟩ :=
    exists_clear_of_mem_metFrom rounds taking start occurs
  obtain ⟨before, after, rfl, spans, behind⟩ := traces_row unmarked traces
  cases behind with
  | @seq _ _ _ name after _ _ _ _ nameTraces tailTraces =>
      obtain rfl := tailTraces.hit_eq tailPlain
      cases nameTraces with
      | name innerTraces =>
          obtain rfl := innerTraces.hit_eq innerPlain
          have cut : slice text (passed ++ between ++ before).length
              (passed ++ between ++ before ++ name).length = name := by
            have whole : text = passed ++ between ++ before ++ (name ++ (after ++ rest)) := by
              simpa [List.append_assoc] using split
            have length : (passed ++ between ++ before ++ name).length =
                (passed ++ between ++ before).length + name.length := List.length_append
            rw [whole, length, slice_between]
          obtain rfl : name = label := cut.symm.trans (Option.some.inj named)
          exact ⟨passed, between, before, after, rest, split, clear, spans, innerTraces.spans,
            tailTraces.spans⟩

end SnippetAudit.Pattern
