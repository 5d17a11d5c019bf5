import SnippetAudit.Proofs.Pattern.Spans

/-!
What a match makes of the hit behind it.

A pattern matches a piece of text and passes on the hit that was found behind the piece. On the way
only the mark of the name can change. `Traces` follows this along the piece, so that where a match
ends and what it names can be read off the forms of the pattern.
-/

set_option autoImplicit false

namespace SnippetAudit.Pattern

/-- `Traces pattern left piece right next hit` says that the pattern matches the piece between the
two texts, and that it turns the hit `next` behind the piece into `hit`. -/
inductive Traces : Pattern → List Char → List Char → List Char → Hit → Hit → Prop where
  | empty {left right : List Char} {hit : Hit} : Traces .empty left [] right hit hit
  | one {set : CharSet} {left right : List Char} {c : Char} {hit : Hit} :
      set.contains c = true → Traces (.one set) left [c] right hit hit
  | look {anchor : Anchor} {left right : List Char} {hit : Hit} :
      anchor.holds left.getLast? right.head? = true →
      Traces (.look anchor) left [] right hit hit
  | seq {first second : Pattern} {left piece rest right : List Char} {next middle hit : Hit} :
      Traces first left piece (rest ++ right) middle hit →
      Traces second (left ++ piece) rest right next middle →
      Traces (.seq first second) left (piece ++ rest) right next hit
  | altFirst {first second : Pattern} {left piece right : List Char} {next hit : Hit} :
      Traces first left piece right next hit →
      Traces (.alt first second) left piece right next hit
  | altSecond {first second : Pattern} {left piece right : List Char} {next hit : Hit} :
      Traces second left piece right next hit →
      Traces (.alt first second) left piece right next hit
  | done {greedy : Bool} {inner : Pattern} {left right : List Char} {hit : Hit} :
      Traces (.star greedy inner) left [] right hit hit
  | round {greedy : Bool} {inner : Pattern} {left piece rest right : List Char}
      {next middle hit : Hit} :
      Traces inner left piece (rest ++ right) middle hit →
      Traces (.star greedy inner) (left ++ piece) rest right next middle →
      Traces (.star greedy inner) left (piece ++ rest) right next hit
  | plus {greedy : Bool} {inner : Pattern} {left piece rest right : List Char}
      {next middle hit : Hit} :
      Traces inner left piece (rest ++ right) middle hit →
      Traces (.star greedy inner) (left ++ piece) rest right next middle →
      Traces (.plus greedy inner) left (piece ++ rest) right next hit
  | name {inner : Pattern} {left piece right : List Char} {next hit : Hit} :
      Traces inner left piece right (next.closeName (left ++ piece).length) hit →
      Traces (.name inner) left piece right next (hit.openName left.length)

theorem Traces.spans {pattern : Pattern} {left piece right : List Char} {next hit : Hit}
    (traces : Traces pattern left piece right next hit) : Spans pattern left piece right := by
  induction traces with
  | empty => exact .empty
  | one inside => exact .one inside
  | look holds => exact .look holds
  | seq _ _ firstIH secondIH => exact .seq firstIH secondIH
  | altFirst _ ih => exact .altFirst ih
  | altSecond _ ih => exact .altSecond ih
  | done => exact .done
  | round _ _ innerIH restIH => exact .round innerIH restIH
  | plus _ _ innerIH restIH => exact .plus innerIH restIH
  | name _ ih => exact .name ih

private theorem stop_closeName (offset : Nat) (hit : Hit) :
    (hit.closeName offset).stop = hit.stop := by
  unfold Hit.closeName
  split <;> rfl

private theorem stop_openName (offset : Nat) (hit : Hit) :
    (hit.openName offset).stop = hit.stop := by
  unfold Hit.openName
  split <;> rfl

/-- The end of a match is passed on as it is. -/
theorem Traces.stop_eq {pattern : Pattern} {left piece right : List Char} {next hit : Hit}
    (traces : Traces pattern left piece right next hit) : hit.stop = next.stop := by
  induction traces with
  | empty | one | look | done => rfl
  | seq _ _ firstIH secondIH => exact firstIH.trans secondIH
  | altFirst _ ih => exact ih
  | altSecond _ ih => exact ih
  | round _ _ innerIH restIH => exact innerIH.trans restIH
  | plus _ _ innerIH restIH => exact innerIH.trans restIH
  | name _ ih => rw [stop_openName, ih, stop_closeName]

/-! Every hit has a trace -/

/-- What the pattern finds is a hit from further on, passed on over a piece that it matches. -/
def FindsTraces (pattern : Pattern) : Prop :=
  ∀ (onward : Onward) (left right : List Char) (hit : Hit),
    finds pattern onward left right = some hit →
      ∃ piece rest next, right = piece ++ rest ∧ onward (left ++ piece) rest = some next ∧
        Traces pattern left piece rest next hit

private theorem eq_some_of_prefer {first second : Option Hit} {hit : Hit}
    (found : prefer first second = some hit) : first = some hit ∨ second = some hit := by
  cases first with
  | none => exact .inr found
  | some other => exact .inl found

private theorem eq_some_of_roundOr {greedy : Bool} {round leave : Option Hit} {hit : Hit}
    (found : roundOr greedy round leave = some hit) : round = some hit ∨ leave = some hit := by
  cases greedy with
  | true => exact eq_some_of_prefer found
  | false => exact (eq_some_of_prefer found).symm

private theorem findsTraces_one (set : CharSet) : FindsTraces (.one set) := by
  intro onward left right hit found
  cases right with
  | nil =>
      rw [finds_one_nil] at found
      cases found
  | cons c right =>
      rw [finds_one_cons] at found
      split at found
      · next inside => exact ⟨[c], right, hit, rfl, found, .one inside⟩
      · cases found

private theorem findsTraces_look (anchor : Anchor) : FindsTraces (.look anchor) := by
  intro onward left right hit found
  rw [finds_look] at found
  split at found
  · next holds => exact ⟨[], right, hit, rfl, by rwa [List.append_nil], .look holds⟩
  · cases found

/-- A hit of two patterns in turn is passed on by one after the other. -/
theorem FindsTraces.andThen {first second : Pattern} (firstFinds : FindsTraces first)
    (secondFinds : FindsTraces second) {onward : Onward} {left right : List Char} {hit : Hit}
    (found : finds first (finds second onward) left right = some hit) :
    ∃ piece more rest next middle, right = piece ++ more ++ rest ∧
      onward (left ++ (piece ++ more)) rest = some next ∧
      Traces first left piece (more ++ rest) middle hit ∧
      Traces second (left ++ piece) more rest next middle := by
  obtain ⟨piece, _, middle, rfl, onwards, firstTraces⟩ := firstFinds _ _ _ _ found
  obtain ⟨more, rest, next, rfl, behind, secondTraces⟩ := secondFinds _ _ _ _ onwards
  refine ⟨piece, more, rest, next, middle, (List.append_assoc ..).symm, ?_, firstTraces,
    secondTraces⟩
  rwa [← List.append_assoc]

private theorem findsTraces_star (greedy : Bool) {inner : Pattern} (innerFinds : FindsTraces inner)
    (taking : inner.mayBeEmpty = false) : FindsTraces (.star greedy inner) := by
  intro onward left right hit found
  -- each round takes a character, so the text behind it is shorter
  induction size : right.length using Nat.strongRecOn generalizing left right hit with
  | ind n ih =>
      rw [finds_star _ _ _ _ taking] at found
      cases eq_some_of_roundOr found with
      | inl round =>
          obtain ⟨piece, rest, middle, rfl, onwards, traces⟩ := innerFinds _ _ _ _ round
          have shorter : rest.length < n := by
            have taken := List.length_pos_iff.mpr (traces.spans.ne_nil taking)
            rw [List.length_append] at size
            omega
          obtain ⟨more, rest, next, rfl, behind, moreTraces⟩ := ih _ shorter _ _ _ onwards rfl
          refine ⟨piece ++ more, rest, next, (List.append_assoc ..).symm, ?_,
            .round traces moreTraces⟩
          rwa [← List.append_assoc]
      | inr leave => exact ⟨[], right, hit, rfl, by rwa [List.append_nil], .done⟩

theorem findsTraces {pattern : Pattern} (rounds : pattern.roundsTake = true) :
    FindsTraces pattern := by
  induction pattern with
  | empty =>
      intro onward left right hit found
      exact ⟨[], right, hit, rfl, by rwa [List.append_nil], .empty⟩
  | one set => exact findsTraces_one set
  | look anchor => exact findsTraces_look anchor
  | seq first second firstIH secondIH =>
      intro onward left right hit found
      obtain ⟨firstRounds, secondRounds⟩ := Bool.and_eq_true_iff.mp rounds
      rw [finds_seq] at found
      obtain ⟨piece, more, rest, next, middle, split, behind, traces, moreTraces⟩ :=
        (firstIH firstRounds).andThen (secondIH secondRounds) found
      exact ⟨piece ++ more, rest, next, split, behind, .seq traces moreTraces⟩
  | alt first second firstIH secondIH =>
      intro onward left right hit found
      obtain ⟨firstRounds, secondRounds⟩ := Bool.and_eq_true_iff.mp rounds
      rw [finds_alt] at found
      cases eq_some_of_prefer found with
      | inl found =>
          obtain ⟨piece, rest, next, split, behind, traces⟩ :=
            firstIH firstRounds _ _ _ _ found
          exact ⟨piece, rest, next, split, behind, .altFirst traces⟩
      | inr found =>
          obtain ⟨piece, rest, next, split, behind, traces⟩ :=
            secondIH secondRounds _ _ _ _ found
          exact ⟨piece, rest, next, split, behind, .altSecond traces⟩
  | star greedy inner ih =>
      obtain ⟨taking, innerRounds⟩ := Bool.and_eq_true_iff.mp rounds
      exact findsTraces_star greedy (ih innerRounds) (by simpa using taking)
  | plus greedy inner ih =>
      intro onward left right hit found
      obtain ⟨taking, innerRounds⟩ := Bool.and_eq_true_iff.mp rounds
      have innerTakes : inner.mayBeEmpty = false := by simpa using taking
      rw [finds_plus _ _ _ _ innerTakes] at found
      obtain ⟨piece, more, rest, next, middle, split, behind, traces, moreTraces⟩ :=
        (ih innerRounds).andThen (findsTraces_star greedy (ih innerRounds) innerTakes) found
      exact ⟨piece ++ more, rest, next, split, behind, .plus traces moreTraces⟩
  | name inner ih =>
      intro onward left right hit found
      rw [finds_name] at found
      obtain ⟨middle, inside, rfl⟩ := Option.map_eq_some_iff.mp found
      obtain ⟨piece, rest, _, split, closed, traces⟩ := ih rounds _ _ _ _ inside
      obtain ⟨next, behind, rfl⟩ := Option.map_eq_some_iff.mp closed
      exact ⟨piece, rest, next, split, behind, .name traces⟩

/-- A hit of the whole pattern is traced from the end of the match, where no name is marked. -/
theorem traces_of_finds {pattern : Pattern} (rounds : pattern.roundsTake = true)
    {left right : List Char} {hit : Hit} (found : finds pattern ending left right = some hit) :
    ∃ piece rest, right = piece ++ rest ∧
      Traces pattern left piece rest { stop := (left ++ piece).length, mark := .absent } hit := by
  obtain ⟨piece, rest, next, split, behind, traces⟩ := findsTraces rounds _ _ _ _ found
  cases behind
  exact ⟨piece, rest, split, traces⟩

theorem slice_between (left piece right : List Char) :
    slice (left ++ (piece ++ right)) left.length (left.length + piece.length) = piece := by
  rw [slice, List.drop_left, Nat.add_sub_cancel_left, List.take_left]

end SnippetAudit.Pattern
