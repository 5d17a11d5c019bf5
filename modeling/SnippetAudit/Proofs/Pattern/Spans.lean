import SnippetAudit.Proofs.Pattern.Sweep

/-!
The pieces of text that a pattern matches.

`Spans` says which pieces match, and where, without any order of preference or of search. A search
finds a pattern exactly if some piece of the text matches it: no way to go on is given up too early.
-/

set_option autoImplicit false

namespace SnippetAudit.Pattern

/-- `Spans pattern left piece right` says that the pattern matches the piece between the two
texts. -/
inductive Spans : Pattern → List Char → List Char → List Char → Prop where
  | empty {left right : List Char} : Spans .empty left [] right
  | one {set : CharSet} {left right : List Char} {c : Char} :
      set.contains c = true → Spans (.one set) left [c] right
  | look {anchor : Anchor} {left right : List Char} :
      anchor.holds left.getLast? right.head? = true → Spans (.look anchor) left [] right
  | seq {first second : Pattern} {left piece rest right : List Char} :
      Spans first left piece (rest ++ right) → Spans second (left ++ piece) rest right →
      Spans (.seq first second) left (piece ++ rest) right
  | altFirst {first second : Pattern} {left piece right : List Char} :
      Spans first left piece right → Spans (.alt first second) left piece right
  | altSecond {first second : Pattern} {left piece right : List Char} :
      Spans second left piece right → Spans (.alt first second) left piece right
  | done {greedy : Bool} {inner : Pattern} {left right : List Char} :
      Spans (.star greedy inner) left [] right
  | round {greedy : Bool} {inner : Pattern} {left piece rest right : List Char} :
      Spans inner left piece (rest ++ right) →
      Spans (.star greedy inner) (left ++ piece) rest right →
      Spans (.star greedy inner) left (piece ++ rest) right
  | plus {greedy : Bool} {inner : Pattern} {left piece rest right : List Char} :
      Spans inner left piece (rest ++ right) →
      Spans (.star greedy inner) (left ++ piece) rest right →
      Spans (.plus greedy inner) left (piece ++ rest) right
  | name {inner : Pattern} {left piece right : List Char} :
      Spans inner left piece right → Spans (.name inner) left piece right

/-- A pattern that cannot be empty takes a character. -/
theorem Spans.ne_nil {pattern : Pattern} {left piece right : List Char}
    (spans : Spans pattern left piece right) (taking : pattern.mayBeEmpty = false) :
    piece ≠ [] := by
  induction spans with
  | empty => cases taking
  | one => exact List.cons_ne_nil _ _
  | look => cases taking
  | seq _ _ firstIH secondIH =>
      intro empty
      obtain ⟨rfl, rfl⟩ := List.append_eq_nil_iff.mp empty
      cases Bool.and_eq_false_iff.mp taking with
      | inl first => exact firstIH first rfl
      | inr second => exact secondIH second rfl
  | altFirst _ ih => exact ih (Bool.or_eq_false_iff.mp taking).1
  | altSecond _ ih => exact ih (Bool.or_eq_false_iff.mp taking).2
  | done => cases taking
  | round => cases taking
  | plus _ _ ih _ =>
      intro empty
      exact ih taking (List.append_eq_nil_iff.mp empty).1
  | name _ ih => exact ih taking

/-- Whether the pattern looks at nothing but the piece that it matches. -/
def looksNowhere : Pattern → Bool
  | .empty => true
  | .one _ => true
  | .look _ => false
  | .seq first second => first.looksNowhere && second.looksNowhere
  | .alt first second => first.looksNowhere && second.looksNowhere
  | .star _ inner => inner.looksNowhere
  | .plus _ inner => inner.looksNowhere
  | .name inner => inner.looksNowhere

/-- Without anchors it does not matter where the piece stands. -/
theorem Spans.move {pattern : Pattern} {left piece right : List Char}
    (spans : Spans pattern left piece right) (nowhere : pattern.looksNowhere = true)
    (newLeft newRight : List Char) : Spans pattern newLeft piece newRight := by
  induction spans generalizing newLeft newRight with
  | empty => exact .empty
  | one inside => exact .one inside
  | look => cases nowhere
  | seq _ _ firstIH secondIH =>
      obtain ⟨first, second⟩ := Bool.and_eq_true_iff.mp nowhere
      exact .seq (firstIH first _ _) (secondIH second _ _)
  | altFirst _ ih => exact .altFirst (ih (Bool.and_eq_true_iff.mp nowhere).1 _ _)
  | altSecond _ ih => exact .altSecond (ih (Bool.and_eq_true_iff.mp nowhere).2 _ _)
  | done => exact .done
  | round _ _ innerIH restIH => exact .round (innerIH nowhere _ _) (restIH nowhere _ _)
  | plus _ _ innerIH restIH => exact .plus (innerIH nowhere _ _) (restIH nowhere _ _)
  | name _ ih => exact .name (ih nowhere _ _)

/-! What is found -/

/-- The pattern finds something exactly if it matches a piece from which something is found
onward. -/
def FindsSpans (pattern : Pattern) : Prop :=
  ∀ (onward : Onward) (left right : List Char),
    (finds pattern onward left right).isSome = true ↔
      ∃ piece rest, right = piece ++ rest ∧ Spans pattern left piece rest ∧
        (onward (left ++ piece) rest).isSome = true

private theorem prefer_isSome (first second : Option Hit) :
    (prefer first second).isSome = (first.isSome || second.isSome) := by
  cases first <;> rfl

private theorem roundOr_isSome (greedy : Bool) (round leave : Option Hit) :
    (roundOr greedy round leave).isSome = (round.isSome || leave.isSome) := by
  cases greedy with
  | true => exact prefer_isSome round leave
  | false => exact (prefer_isSome leave round).trans (Bool.or_comm _ _)

private theorem findsSpans_empty : FindsSpans .empty := by
  intro onward left right
  rw [finds_empty]
  constructor
  · intro found
    exact ⟨[], right, rfl, .empty, by rwa [List.append_nil]⟩
  · intro spanned
    obtain ⟨_, _, rfl, spans, found⟩ := spanned
    cases spans
    rwa [List.append_nil] at found

private theorem findsSpans_one (set : CharSet) : FindsSpans (.one set) := by
  intro onward left right
  constructor
  · intro found
    cases right with
    | nil =>
        rw [finds_one_nil] at found
        cases found
    | cons c right =>
        rw [finds_one_cons] at found
        split at found
        · next inside => exact ⟨[c], right, rfl, .one inside, found⟩
        · cases found
  · intro spanned
    obtain ⟨_, _, rfl, spans, found⟩ := spanned
    cases spans with
    | one inside => rwa [List.singleton_append, finds_one_cons, if_pos inside]

private theorem findsSpans_look (anchor : Anchor) : FindsSpans (.look anchor) := by
  intro onward left right
  rw [finds_look]
  constructor
  · intro found
    split at found
    · next holds => exact ⟨[], right, rfl, .look holds, by rwa [List.append_nil]⟩
    · cases found
  · intro spanned
    obtain ⟨_, _, rfl, spans, found⟩ := spanned
    cases spans with
    | look holds =>
        rw [List.append_nil] at found
        rwa [List.nil_append, if_pos holds]

/-- Two patterns in turn match a piece that splits into one piece for each. -/
theorem finds_finds_isSome {first second : Pattern} (firstFinds : FindsSpans first)
    (secondFinds : FindsSpans second) (onward : Onward) (left right : List Char) :
    (finds first (finds second onward) left right).isSome = true ↔
      ∃ piece more rest, right = piece ++ more ++ rest ∧ Spans first left piece (more ++ rest) ∧
        Spans second (left ++ piece) more rest ∧
        (onward (left ++ (piece ++ more)) rest).isSome = true := by
  rw [firstFinds]
  constructor
  · intro spanned
    obtain ⟨piece, rest, rfl, spans, found⟩ := spanned
    obtain ⟨more, rest, rfl, moreSpans, found⟩ := (secondFinds _ _ _).mp found
    refine ⟨piece, more, rest, (List.append_assoc ..).symm, spans, moreSpans, ?_⟩
    rwa [← List.append_assoc]
  · intro spanned
    obtain ⟨piece, more, rest, rfl, spans, moreSpans, found⟩ := spanned
    refine ⟨piece, more ++ rest, List.append_assoc .., spans, (secondFinds _ _ _).mpr ?_⟩
    exact ⟨more, rest, rfl, moreSpans, by rwa [List.append_assoc]⟩

private theorem findsSpans_seq {first second : Pattern} (firstFinds : FindsSpans first)
    (secondFinds : FindsSpans second) : FindsSpans (.seq first second) := by
  intro onward left right
  rw [finds_seq, finds_finds_isSome firstFinds secondFinds]
  constructor
  · intro spanned
    obtain ⟨piece, more, rest, split, spans, moreSpans, found⟩ := spanned
    exact ⟨piece ++ more, rest, split, .seq spans moreSpans, found⟩
  · intro spanned
    obtain ⟨_, rest, split, spans, found⟩ := spanned
    cases spans with
    | seq spans moreSpans => exact ⟨_, _, rest, split, spans, moreSpans, found⟩

private theorem findsSpans_alt {first second : Pattern} (firstFinds : FindsSpans first)
    (secondFinds : FindsSpans second) : FindsSpans (.alt first second) := by
  intro onward left right
  rw [finds_alt, prefer_isSome, Bool.or_eq_true, firstFinds, secondFinds]
  constructor
  · intro spanned
    cases spanned with
    | inl spanned =>
        obtain ⟨piece, rest, split, spans, found⟩ := spanned
        exact ⟨piece, rest, split, .altFirst spans, found⟩
    | inr spanned =>
        obtain ⟨piece, rest, split, spans, found⟩ := spanned
        exact ⟨piece, rest, split, .altSecond spans, found⟩
  · intro spanned
    obtain ⟨piece, rest, split, spans, found⟩ := spanned
    cases spans with
    | altFirst spans => exact .inl ⟨piece, rest, split, spans, found⟩
    | altSecond spans => exact .inr ⟨piece, rest, split, spans, found⟩

private theorem findsSpans_star (greedy : Bool) {inner : Pattern} (innerFinds : FindsSpans inner)
    (taking : inner.mayBeEmpty = false) : FindsSpans (.star greedy inner) := by
  intro onward left right
  -- each round takes a character, so the text behind it is shorter
  induction size : right.length using Nat.strongRecOn generalizing left right with
  | ind n ih =>
      rw [finds_star _ _ _ _ taking, roundOr_isSome, Bool.or_eq_true, innerFinds]
      constructor
      · intro found
        cases found with
        | inl spanned =>
            obtain ⟨piece, rest, rfl, spans, found⟩ := spanned
            have shorter : rest.length < n := by
              have taken := List.length_pos_iff.mpr (spans.ne_nil taking)
              rw [List.length_append] at size
              omega
            obtain ⟨more, rest, rfl, moreSpans, found⟩ := (ih _ shorter _ _ rfl).mp found
            refine ⟨piece ++ more, rest, (List.append_assoc ..).symm, .round spans moreSpans, ?_⟩
            rwa [← List.append_assoc]
        | inr found => exact ⟨[], right, rfl, .done, by rwa [List.append_nil]⟩
      · intro spanned
        obtain ⟨_, rest, rfl, spans, found⟩ := spanned
        cases spans with
        | done =>
            rw [List.append_nil] at found
            exact .inr found
        | @round _ _ _ piece more _ spans moreSpans =>
            have shorter : (more ++ rest).length < n := by
              have taken := List.length_pos_iff.mpr (spans.ne_nil taking)
              rw [List.append_assoc, List.length_append] at size
              omega
            refine .inl ⟨piece, more ++ rest, List.append_assoc .., spans, ?_⟩
            refine (ih _ shorter _ _ rfl).mpr ⟨more, rest, rfl, moreSpans, ?_⟩
            rwa [List.append_assoc]

private theorem findsSpans_plus (greedy : Bool) {inner : Pattern} (innerFinds : FindsSpans inner)
    (taking : inner.mayBeEmpty = false) : FindsSpans (.plus greedy inner) := by
  intro onward left right
  rw [finds_plus _ _ _ _ taking,
    finds_finds_isSome innerFinds (findsSpans_star greedy innerFinds taking)]
  constructor
  · intro spanned
    obtain ⟨piece, more, rest, split, spans, moreSpans, found⟩ := spanned
    exact ⟨piece ++ more, rest, split, .plus spans moreSpans, found⟩
  · intro spanned
    obtain ⟨_, rest, split, spans, found⟩ := spanned
    cases spans with
    | plus spans moreSpans => exact ⟨_, _, rest, split, spans, moreSpans, found⟩

private theorem findsSpans_name {inner : Pattern} (innerFinds : FindsSpans inner) :
    FindsSpans (.name inner) := by
  intro onward left right
  rw [finds_name, Option.isSome_map, innerFinds]
  simp only [closing, Option.isSome_map]
  constructor
  · intro spanned
    obtain ⟨piece, rest, split, spans, found⟩ := spanned
    exact ⟨piece, rest, split, .name spans, found⟩
  · intro spanned
    obtain ⟨piece, rest, split, spans, found⟩ := spanned
    cases spans with
    | name spans => exact ⟨piece, rest, split, spans, found⟩

/-- Whether each round of every repetition takes a character. -/
def roundsTake : Pattern → Bool
  | .empty => true
  | .one _ => true
  | .look _ => true
  | .seq first second => first.roundsTake && second.roundsTake
  | .alt first second => first.roundsTake && second.roundsTake
  | .star _ inner => !inner.mayBeEmpty && inner.roundsTake
  | .plus _ inner => !inner.mayBeEmpty && inner.roundsTake
  | .name inner => inner.roundsTake

theorem findsSpans {pattern : Pattern} (rounds : pattern.roundsTake = true) :
    FindsSpans pattern := by
  induction pattern with
  | empty => exact findsSpans_empty
  | one set => exact findsSpans_one set
  | look anchor => exact findsSpans_look anchor
  | seq first second firstIH secondIH =>
      obtain ⟨firstRounds, secondRounds⟩ := Bool.and_eq_true_iff.mp rounds
      exact findsSpans_seq (firstIH firstRounds) (secondIH secondRounds)
  | alt first second firstIH secondIH =>
      obtain ⟨firstRounds, secondRounds⟩ := Bool.and_eq_true_iff.mp rounds
      exact findsSpans_alt (firstIH firstRounds) (secondIH secondRounds)
  | star greedy inner ih =>
      obtain ⟨taking, innerRounds⟩ := Bool.and_eq_true_iff.mp rounds
      exact findsSpans_star greedy (ih innerRounds) (by simpa using taking)
  | plus greedy inner ih =>
      obtain ⟨taking, innerRounds⟩ := Bool.and_eq_true_iff.mp rounds
      exact findsSpans_plus greedy (ih innerRounds) (by simpa using taking)
  | name inner ih => exact findsSpans_name (ih rounds)

/-- A pattern occurs in a text exactly if it matches some piece of the text. -/
theorem occursIn_iff_spans {pattern : Pattern} (rounds : pattern.roundsTake = true)
    {text : List Char} :
    pattern.occursIn text = true ↔
      ∃ left piece right, text = left ++ (piece ++ right) ∧ Spans pattern left piece right := by
  rw [occursIn_iff_finds]
  constructor
  · intro occurs
    obtain ⟨left, _, rfl, found⟩ := occurs
    obtain ⟨piece, right, rfl, spans, _⟩ := (findsSpans rounds _ _ _).mp found
    exact ⟨left, piece, right, rfl, spans⟩
  · intro occurs
    obtain ⟨left, piece, right, split, spans⟩ := occurs
    refine ⟨left, piece ++ right, split, (findsSpans rounds _ _ _).mpr ?_⟩
    exact ⟨piece, right, rfl, spans, rfl⟩

end SnippetAudit.Pattern
