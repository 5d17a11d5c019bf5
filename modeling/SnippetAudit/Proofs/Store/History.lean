import Mathlib.Data.List.Induction
import SnippetAudit.Proofs.Store.Runs

/-!
The history law of a store: what an id names after any run is told by the calls alone.

A row is there from the create that gave its id until it is deleted, by id or with its version.
While it is there, its id, version, kind and time are those of the create, and each part of its
record is what the latest update of that part wrote.
-/

set_option autoImplicit false

namespace SnippetAudit.Store

/-! The latest update -/

/-- What a call writes to one part of the record of an id. -/
def Call.written? {α : Type} (part : RowChange → Option α) (id : Nat) : Call → Option α
  | .update other change => if other = id then part change else none
  | _ => none

/-- What the latest update of an id wrote to one part, among the updates that wrote to it. -/
def latest {α : Type} (part : RowChange → Option α) (id : Nat) (calls : List Call) : Option α :=
  (calls.filterMap (Call.written? part id)).getLast?

/-- A record with every part as its latest update wrote it. Findings are written as JSON text. -/
def lastWritten (id : Nat) (calls : List Call) (stored : Stored) : Stored where
  score := latest (·.score) id calls <|> stored.score
  security := ((latest (·.security) id calls).map Column.ofFindings).getD stored.security
  performance := ((latest (·.performance) id calls).map Column.ofFindings).getD stored.performance
  smells := ((latest (·.smells) id calls).map Column.ofFindings).getD stored.smells

theorem latest_cons {α : Type} (part : RowChange → Option α) (id : Nat) (call : Call)
    (calls : List Call) :
    latest part id (call :: calls) = (latest part id calls).or (call.written? part id) := by
  unfold latest
  cases written : call.written? part id with
  | none => rw [List.filterMap_cons_none written, Option.or_none]
  | some value =>
      rw [List.filterMap_cons_some written, List.getLast?_cons]
      cases (calls.filterMap (Call.written? part id)).getLast? <;> rfl

/-- An update is overwritten by those behind it, part by part. -/
theorem lastWritten_cons_update (id : Nat) (change : RowChange) (calls : List Call)
    (stored : Stored) :
    lastWritten id (.update id change :: calls) stored =
      lastWritten id calls (change.apply stored) := by
  have column : ∀ (later given : Option (List Finding)) (old : Column),
      ((later.or given).map Column.ofFindings).getD old =
        (later.map Column.ofFindings).getD ((given.map Column.ofFindings).getD old) := by
    intro later given old
    cases later <;> rfl
  simp only [lastWritten, latest_cons, Call.written?, ↓reduceIte, RowChange.apply, column,
    Option.orElse_eq_orElse, Option.orElse_eq_or, Option.or_assoc]

private theorem lastWritten_cons_other {id : Nat} {call : Call} (calls : List Call)
    (stored : Stored) (other : ∀ change, call ≠ .update id change) :
    lastWritten id (call :: calls) stored = lastWritten id calls stored := by
  have nothing : ∀ {α : Type} (part : RowChange → Option α), call.written? part id = none := by
    intro α part
    cases call with
    | update target change =>
        have different : target ≠ id := by
          rintro rfl
          exact other change rfl
        exact if_neg different
    | _ => rfl
  simp only [lastWritten, latest_cons, nothing, Option.or_none]

/-! A row that is there -/

/-- A row stays while no call deletes it, and its record is the one last written. -/
theorem row?_afterCalls_of_kept {store : Store} (ordered : store.Ordered) {id : Nat} {row : Row}
    (found : store.row? id = some row) {calls : List Call} (kept : Call.delete id ∉ calls)
    (keptVersion : Call.deleteVersion row.version ∉ calls) :
    (store.afterCalls calls).row? id =
      some { row with stored := lastWritten id calls row.stored } := by
  induction calls generalizing store row with
  | nil => exact found
  | cons call calls ih =>
      simp only [List.mem_cons, not_or] at kept keptVersion
      have effect := (perform_outcome store call).row?_of_some ordered found
      rw [afterCalls_cons]
      cases call with
      | create now new =>
          rw [ih (ordered.perform _) effect kept.2 keptVersion.2, lastWritten_cons_other]
          simp
      | update target change =>
          by_cases hit : target = id
          · subst hit
            rw [Call.effect, if_pos rfl] at effect
            rw [ih (ordered.perform _) effect kept.2 keptVersion.2, lastWritten_cons_update]
            rfl
          · rw [Call.effect, if_neg hit] at effect
            rw [ih (ordered.perform _) effect kept.2 keptVersion.2, lastWritten_cons_other]
            rintro other ⟨⟩
            exact hit rfl
      | delete target =>
          have different : target ≠ id := fun same => kept.1 (same ▸ rfl)
          rw [Call.effect, if_neg different] at effect
          rw [ih (ordered.perform _) effect kept.2 keptVersion.2, lastWritten_cons_other]
          simp
      | deleteVersion version =>
          have different : row.version ≠ version := fun same => keptVersion.1 (same ▸ rfl)
          rw [Call.effect, if_neg different] at effect
          rw [ih (ordered.perform _) effect kept.2 keptVersion.2, lastWritten_cons_other]
          simp

/-! A row that is gone -/

private theorem row?_afterCalls_of_none {store : Store} (ordered : store.Ordered) {id : Nat}
    (given : id ≤ store.lastId) (missing : store.row? id = none) (calls : List Call) :
    (store.afterCalls calls).row? id = none := by
  induction calls generalizing store with
  | nil => exact missing
  | cons call calls ih =>
      have outcome := perform_outcome store call
      exact ih (ordered.perform call) (Nat.le_trans given outcome.lastId_le)
        (outcome.row?_of_none ordered given missing)

/-- A call that leaves a row there does not delete it, and keeps its version. -/
theorem Call.of_effect_eq_some {id : Nat} {row next : Row} {call : Call}
    (remains : call.effect id row = some next) :
    next.version = row.version ∧ call ≠ .delete id ∧ call ≠ .deleteVersion row.version := by
  cases call with
  | create now new =>
      cases remains
      simp
  | update target change =>
      cases remains
      refine ⟨?_, by simp, by simp⟩
      split <;> rfl
  | delete target =>
      simp only [Call.effect] at remains
      split_ifs at remains with hit
      cases remains
      simpa using hit
  | deleteVersion version =>
      simp only [Call.effect] at remains
      split_ifs at remains with hit
      cases remains
      simpa using Ne.symm hit

/-- A row is gone once some call deletes it, by its id or with its version. -/
theorem row?_afterCalls_of_deleted {store : Store} (ordered : store.Ordered) {id : Nat} {row : Row}
    (found : store.row? id = some row) {calls : List Call}
    (deleted : Call.delete id ∈ calls ∨ Call.deleteVersion row.version ∈ calls) :
    (store.afterCalls calls).row? id = none := by
  induction calls generalizing store row with
  | nil => simp at deleted
  | cons call calls ih =>
      have outcome := perform_outcome store call
      have effect := outcome.row?_of_some ordered found
      rw [afterCalls_cons]
      cases remains : call.effect id row with
      | none =>
          obtain ⟨member, rfl⟩ := ordered.row?_eq_some_iff.mp found
          have given := (ordered.bounded_row member).2
          exact row?_afterCalls_of_none (ordered.perform call)
            (Nat.le_trans given outcome.lastId_le) (effect.trans remains) calls
      | some next =>
          obtain ⟨sameVersion, notDelete, notDeleteVersion⟩ := Call.of_effect_eq_some remains
          apply ih (ordered.perform call) (effect.trans remains)
          rw [sameVersion]
          simpa [Ne.symm notDelete, Ne.symm notDeleteVersion] using deleted

/-! Creations -/

/-- In a run, a create answered with a row of this id, and the later calls came behind it. -/
def Creates (calls : List Call) (id : Nat) (now : Instant) (new : NewRow) (later : List Call) :
    Prop :=
  ∃ earlier row changed, calls = earlier ++ .create now new :: later ∧
    (run earlier).create now new = (.ok row, changed) ∧ row.id = id

theorem Creates.row?_eq {calls later : List Call} {id : Nat} {now : Instant} {new : NewRow}
    (creates : Creates calls id now new later) :
    ∃ store : Store, store.Ordered ∧ run calls = store.afterCalls later ∧
      store.row? id = some
        { id, version := new.version, kind := new.kind, stored := new.stored, created := now } := by
  obtain ⟨earlier, row, changed, rfl, created, rfl⟩ := creates
  have ordered := ordered_run earlier
  refine ⟨changed, ordered.create created, ?_, ?_⟩
  · rw [run_append, afterCalls_cons, perform, created]
  · rw [row?_create created, if_pos rfl]
    obtain ⟨_, rfl, _⟩ := create_eq_ok_iff.mp created
    rfl

theorem Creates.append {calls later : List Call} {id : Nat} {now : Instant} {new : NewRow}
    (creates : Creates calls id now new later) (more : List Call) :
    Creates (calls ++ more) id now new (later ++ more) := by
  obtain ⟨earlier, row, changed, rfl, created, named⟩ := creates
  exact ⟨earlier, row, changed, by simp, created, named⟩

/-- Only a create that succeeds gives an id, and it gives the next one. -/
theorem Outcome.lastId_eq {store : Store} {call : Call} {result : Answer × Store}
    (outcome : Outcome store call result) :
    result.2.lastId = store.lastId ∨
      ∃ now new row changed, call = .create now new ∧ store.create now new = (.ok row, changed) ∧
        row.id = store.lastId + 1 ∧ result.2.lastId = store.lastId + 1 := by
  cases outcome with
  | @created now new row changed created =>
      obtain ⟨_, rfl, rfl⟩ := create_eq_ok_iff.mp created
      exact .inr ⟨now, new, _, _, rfl, created, rfl, rfl⟩
  | updated updated =>
      obtain ⟨_, _, _, rfl⟩ := update_eq_ok_iff.mp updated
      exact .inl rfl
  | _ => exact .inl rfl

/-- Every id up to the one given last was given by some create. -/
theorem exists_creates {calls : List Call} {id : Nat} (positive : 0 < id)
    (given : id ≤ (run calls).lastId) : ∃ now new later, Creates calls id now new later := by
  induction calls using List.reverseRecOn with
  | nil =>
      have nothing : (run []).lastId = 0 := rfl
      omega
  | append_singleton calls call ih =>
      by_cases before : id ≤ (run calls).lastId
      · obtain ⟨now, new, later, creates⟩ := ih before
        exact ⟨now, new, _, creates.append [call]⟩
      · have last : run (calls ++ [call]) = ((run calls).perform call).2 := run_append _ _
        rw [last] at given
        rcases (perform_outcome (run calls) call).lastId_eq with
          same | ⟨now, new, row, changed, rfl, created, next, increased⟩
        · omega
        · exact ⟨now, new, [], calls, row, changed, rfl, created, by omega⟩

/-- An id names no row exactly when no create gave it, or when the row was deleted behind the create
that did. -/
theorem row?_run_eq_none_iff (calls : List Call) (id : Nat) :
    (run calls).row? id = none ↔
      (∀ now new later, ¬ Creates calls id now new later) ∨
        ∃ now new later, Creates calls id now new later ∧
          (Call.delete id ∈ later ∨ Call.deleteVersion new.version ∈ later) := by
  constructor
  · intro missing
    by_cases given : ∃ now new later, Creates calls id now new later
    · obtain ⟨now, new, later, creates⟩ := given
      refine .inr ⟨now, new, later, creates, ?_⟩
      by_contra kept
      obtain ⟨store, ordered, same, found⟩ := creates.row?_eq
      obtain ⟨notDeleted, notDeletedVersion⟩ := not_or.mp kept
      rw [same, row?_afterCalls_of_kept ordered found notDeleted notDeletedVersion] at missing
      cases missing
    · exact .inl fun now new later creates => given ⟨now, new, later, creates⟩
  · rintro (never | ⟨now, new, later, creates, deleted⟩)
    · apply (ordered_run calls).row?_unused
      by_contra given
      obtain ⟨now, new, later, creates⟩ :=
        exists_creates (by omega : 0 < id) (by omega : id ≤ (run calls).lastId)
      exact never now new later creates
    · obtain ⟨store, ordered, same, found⟩ := creates.row?_eq
      rw [same]
      exact row?_afterCalls_of_deleted ordered found deleted

/-! Refused calls -/

theorem Refusal.perform_eq {store : Store} {call : Call} {error : StoreError}
    (refusal : Refusal store call error) : store.perform call = (.refused error, store) := by
  cases refusal with
  | noVersion zero => simp [perform, create, zero, Answer.ofResult]
  | blankKind given blank => simp [perform, create, given, blank, Answer.ofResult]
  | @unknownRow id change missing =>
      rw [perform, update_of_missing (row?_eq_none_iff.mpr missing)]
      rfl

theorem Outcome.refusal {store : Store} {call : Call} {result : Answer × Store}
    (outcome : Outcome store call result) {error : StoreError}
    (refused : result.1 = .refused error) : Refusal store call error := by
  cases outcome with
  | refused refusal =>
      cases refused
      exact refusal
  | _ => cases refused

/-! The law -/

/-- What an id names at the end of a run: nothing if no create gave it or its row was deleted later;
otherwise the row of that create, with every part of the record as the latest update of that part
wrote it. A call that is refused, for no version, a blank kind or an unknown row, leaves the whole
store as it was. -/
theorem find_run_eq_history (calls : List Call) (id : Nat) :
    ((run calls).find id = .error (.notFound id) ↔
      (∀ now new later, ¬ Creates calls id now new later) ∨
        ∃ now new later, Creates calls id now new later ∧
          (Call.delete id ∈ later ∨ Call.deleteVersion new.version ∈ later)) ∧
    (∀ now new later, Creates calls id now new later → Call.delete id ∉ later →
      Call.deleteVersion new.version ∉ later →
      (run calls).find id = .ok
        { id, version := new.version, kind := new.kind, created := now,
          stored := lastWritten id later new.stored }) ∧
    (∀ earlier call later, calls = earlier ++ call :: later →
      ∀ error, (((run earlier).perform call).1 = .refused error ↔
          Refusal (run earlier) call error) ∧
        (Refusal (run earlier) call error → ((run earlier).perform call).2 = run earlier)) := by
  refine ⟨?_, ?_, ?_⟩
  · rw [find_eq_notFound_iff, row?_run_eq_none_iff]
  · intro now new later creates kept keptVersion
    obtain ⟨store, ordered, same, found⟩ := creates.row?_eq
    rw [find_eq_ok_iff, same, row?_afterCalls_of_kept ordered found kept keptVersion]
  · rintro earlier call later - error
    refine ⟨⟨(perform_outcome (run earlier) call).refusal, fun refusal => ?_⟩, fun refusal => ?_⟩
    · rw [refusal.perform_eq]
    · rw [refusal.perform_eq]

/-- Two updates of a row, of which the later carries no score, and a deletion of another version's
rows. -/
theorem find_run_two_updates :
    (run [.create ⟨0, 0⟩ { version := 7, kind := "full", stored := {} },
        .update 1 { score := some (.ofFloat 4.5), security := some [] },
        .update 1 { smells := some [] }, .deleteVersion 8]).find 1 = .ok
      { id := 1, version := 7, kind := "full", created := ⟨0, 0⟩,
        stored :=
          { score := some (.ofFloat 4.5), security := .ofFindings [],
            smells := .ofFindings [] } } :=
  (find_run_eq_history _ 1).2.1 ⟨0, 0⟩ { version := 7, kind := "full", stored := {} } _
    ⟨[], _, _, rfl, rfl, rfl⟩ (by simp) (by simp)

end SnippetAudit.Store
