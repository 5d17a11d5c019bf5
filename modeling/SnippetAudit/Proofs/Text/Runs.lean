import Mathlib.Data.List.SplitBy

/-!
Runs of a text: the pieces between the places where a property of characters sets in or ceases.
-/

set_option autoImplicit false

namespace SnippetAudit.Text

/-- The longest pieces whose characters all have the property or all lack it, in order. -/
def runs (holds : Char → Bool) (text : List Char) : List (List Char) :=
  text.splitBy fun c d => holds c == holds d

/-- The longest pieces whose characters all have the property. -/
def runsOf (holds : Char → Bool) (text : List Char) : List (List Char) :=
  (runs holds text).filter fun run => run.all holds

/-- What a text starts with and what follows, where the run ends. -/
structure FirstRun (holds : Char → Bool) (kind : Bool) (run rest : List Char) : Prop where
  nonempty : run ≠ []
  uniform : ∀ c ∈ run, holds c = kind
  ends : ∀ c ∈ rest.head?, holds c = !kind

variable {holds : Char → Bool} {kind : Bool} {run rest : List Char}

theorem FirstRun.runs_eq (first : FirstRun holds kind run rest) :
    runs holds (run ++ rest) = run :: runs holds rest := by
  have apart : ∀ c ∈ run.getLast?, ∀ d ∈ rest.head?, (holds c == holds d) = false := by
    intro c last d head
    rw [first.uniform c (List.mem_of_getLast? last), first.ends d head]
    cases kind <;> rfl
  have chain : run.IsChain fun c d => (holds c == holds d) = true := by
    apply List.Pairwise.isChain
    rw [List.pairwise_iff_forall_sublist]
    intro c d inside
    have member : ∀ e ∈ [c, d], e ∈ run := fun e => inside.mem
    rw [first.uniform c (member c (by simp)), first.uniform d (member d (by simp)),
      beq_self_eq_true]
  rw [runs, List.splitBy_append apart, List.splitBy_of_isChain first.nonempty chain]
  rfl

theorem exists_firstRun (holds : Char → Bool) (c : Char) (text : List Char) :
    ∃ run rest, c :: text = run ++ rest ∧ FirstRun holds (holds c) run rest := by
  refine ⟨c :: text.takeWhile (holds · == holds c), text.dropWhile (holds · == holds c), ?_,
    List.cons_ne_nil _ _, ?_, ?_⟩
  · rw [List.cons_append, List.takeWhile_append_dropWhile]
  · intro d member
    cases member with
    | head => rfl
    | tail _ member => exact beq_iff_eq.mp (List.all_eq_true.mp List.all_takeWhile d member)
  · intro d head
    have differs := List.head?_dropWhile_not (holds · == holds c) text
    rw [Option.mem_def.mp head] at differs
    exact Bool.eq_not.mpr (beq_eq_false_iff_ne.mp differs)

theorem FirstRun.takeWhile_eq (first : FirstRun holds kind run rest) :
    (run ++ rest).takeWhile (holds · == kind) = run := by
  rw [List.takeWhile_append_of_pos fun c member => beq_iff_eq.mpr (first.uniform c member)]
  cases rest with
  | nil => rw [List.takeWhile_nil, List.append_nil]
  | cons d rest =>
      have stops : ¬ (holds d == kind) = true := by
        rw [first.ends d rfl]
        cases kind <;> decide
      rw [List.takeWhile_cons, if_neg stops, List.append_nil]

theorem FirstRun.any_head (first : FirstRun holds kind run rest) :
    (run ++ rest).head?.any holds = kind := by
  obtain ⟨c, others, rfl⟩ := List.exists_cons_of_ne_nil first.nonempty
  exact first.uniform c List.mem_cons_self

/-- A text starts with one run only. -/
theorem FirstRun.unique {kind' : Bool} {other others : List Char}
    (first : FirstRun holds kind run rest) (second : FirstRun holds kind' other others)
    (same : run ++ rest = other ++ others) : kind = kind' ∧ run = other ∧ rest = others := by
  have kinds : kind = kind' := by rw [← first.any_head, same, second.any_head]
  subst kinds
  have runs : run = other := by rw [← first.takeWhile_eq, same, second.takeWhile_eq]
  subst runs
  exact ⟨rfl, rfl, List.append_cancel_left same⟩

theorem FirstRun.all_eq (first : FirstRun holds kind run rest) : run.all holds = kind := by
  obtain ⟨c, others, rfl⟩ := List.exists_cons_of_ne_nil first.nonempty
  cases kind with
  | true => exact List.all_eq_true.mpr first.uniform
  | false => rw [List.all_cons, first.uniform c List.mem_cons_self, Bool.false_and]

theorem FirstRun.runsOf_eq (first : FirstRun holds kind run rest) :
    runsOf holds (run ++ rest) = if kind then run :: runsOf holds rest else runsOf holds rest := by
  rw [runsOf, first.runs_eq, List.filter_cons, first.all_eq]
  rfl

/-- The property changes at the place, so that a run starts there. -/
def TurnsAt (holds : Char → Bool) (left right : List Char) : Prop :=
  ∀ c ∈ left.getLast?, ∀ d ∈ right.head?, holds c = !holds d

theorem turnsAt_nil (holds : Char → Bool) (right : List Char) : TurnsAt holds [] right := by
  intro c last
  cases last

theorem FirstRun.turnsAt (first : FirstRun holds kind run rest) (left : List Char) :
    TurnsAt holds (left ++ run) rest := by
  intro c last d head
  rw [List.getLast?_append_of_ne_nil left first.nonempty] at last
  rw [first.uniform c (List.mem_of_getLast? last), first.ends d head, Bool.not_not]

theorem FirstRun.before (first : FirstRun holds kind run rest) {left : List Char}
    (turns : TurnsAt holds left (run ++ rest)) : ∀ c ∈ left.getLast?, holds c = !kind := by
  obtain ⟨d, others, rfl⟩ := List.exists_cons_of_ne_nil first.nonempty
  intro c last
  rw [turns c last d rfl, first.uniform d List.mem_cons_self]

theorem FirstRun.inside (first : FirstRun holds kind run rest) {left before after : List Char}
    (split : run = before ++ after) (nonempty : before ≠ []) :
    ∃ c ∈ (left ++ before).getLast?, holds c = kind := by
  refine ⟨before.getLast nonempty, ?_, first.uniform _ ?_⟩
  · rw [List.getLast?_append_of_ne_nil left nonempty]
    exact List.getLast?_eq_some_getLast nonempty
  · rw [split]
    exact List.mem_append_left _ (List.getLast_mem nonempty)

/-- Induction along the runs of a text. -/
@[elab_as_elim]
theorem runs_induction (holds : Char → Bool) {motive : List Char → Prop} (nil : motive [])
    (append : ∀ kind run rest, FirstRun holds kind run rest → motive rest → motive (run ++ rest))
    (text : List Char) : motive text := by
  induction size : text.length using Nat.strongRecOn generalizing text with
  | ind n ih =>
      cases text with
      | nil => exact nil
      | cons c text =>
          obtain ⟨run, rest, split, first⟩ := exists_firstRun holds c text
          have shorter : rest.length < n := by
            have taken := List.length_pos_iff.mpr first.nonempty
            rw [split, List.length_append] at size
            omega
          rw [split]
          exact append _ run rest first (ih _ shorter rest rfl)

theorem exists_firstRun_of_runs_eq {text : List Char} {others : List (List Char)}
    (split : runs holds text = run :: others) :
    ∃ kind rest, text = run ++ rest ∧ FirstRun holds kind run rest ∧ runs holds rest = others := by
  cases text with
  | nil => cases split
  | cons c text =>
      obtain ⟨first, rest, cut, isFirst⟩ := exists_firstRun holds c text
      rw [cut, isFirst.runs_eq] at split
      cases split
      exact ⟨_, rest, cut, isFirst, rfl⟩

theorem TurnsAt.runs_append {left right : List Char} (turns : TurnsAt holds left right) :
    runs holds (left ++ right) = runs holds left ++ runs holds right := by
  apply List.splitBy_append
  intro c last d head
  rw [turns c last d head]
  cases holds d <;> rfl

/-- A piece whose characters have the property is a run if those next to it lack it. -/
theorem FirstRun.mem_runsOf (first : FirstRun holds true run rest) {left : List Char}
    (before : ∀ c ∈ left.getLast?, holds c = false) :
    run ∈ runsOf holds (left ++ (run ++ rest)) := by
  have turns : TurnsAt holds left (run ++ rest) := by
    intro c last d head
    have starts := first.any_head
    rw [Option.mem_def.mp head, Option.any_some] at starts
    rw [before c last, starts]
    rfl
  rw [runsOf, turns.runs_append, first.runs_eq, List.mem_filter]
  exact ⟨List.mem_append_right _ List.mem_cons_self, first.all_eq⟩

end SnippetAudit.Text
