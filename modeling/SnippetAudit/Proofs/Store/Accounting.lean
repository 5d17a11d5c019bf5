import Mathlib.Data.List.DropRight
import SnippetAudit.Proofs.Store.Runs

/-!
What a run of a store adds up to.

The answers of a run tell which ids were given and how many rows were deleted. Ids are given in
turn, from one on, and the rows that are left are those made less those deleted. Every step keeps
both accounts, whether its call is refused or not.
-/

set_option autoImplicit false

namespace SnippetAudit

/-- Nothing is left of a text by trimming exactly if it is all white. -/
theorem Text.trim_eq_nil_iff (text : List Char) : trim text = [] ↔ isAllWhite text = true := by
  have start : ∀ text : List Char, trimStart text = [] ↔ isAllWhite text = true := by
    intro text
    simp [trimStart, isAllWhite]
  rw [trim, List.reverse_eq_nil_iff, start, isAllWhite, List.all_reverse]
  constructor
  · intro white
    rw [← start]
    cases left : trimStart text with
    | nil => rfl
    | cons c rest =>
        -- What trimming leaves at the front is not white.
        have solid : isWhite c = false := by
          have head : (text.dropWhile isWhite).head? = some c := congrArg List.head? left
          simpa [head] using List.head?_dropWhile_not isWhite text
        simp [left, solid] at white
  · intro white
    rw [(start text).mpr white]
    rfl

namespace Store

/-! The transcript of a run -/

/-- The calls of a run with their answers, in order. -/
def transcript (store : Store) : List Call → List (Call × Answer)
  | [] => []
  | call :: calls =>
      (call, (store.perform call).1) :: transcript (store.perform call).2 calls

/-- The id that a create was answered with. -/
def givenId? : Call × Answer → Option Nat
  | (.create _ _, .row row) => some row.id
  | _ => none

/-- Whether a deletion by id was answered by true. -/
def deletedOne : Call × Answer → Bool
  | (.delete _, .found was) => was
  | _ => false

/-- The number that a deletion by version was answered with. -/
def deletedRows : Call × Answer → Nat
  | (.deleteVersion _, .count rows) => rows
  | _ => 0

def createdIds (entries : List (Call × Answer)) : List Nat :=
  entries.filterMap givenId?

def deletions (entries : List (Call × Answer)) : Nat :=
  entries.countP deletedOne

def versionDeletions (entries : List (Call × Answer)) : Nat :=
  entries.foldr (fun entry total => deletedRows entry + total) 0

/-! One step -/

/-- The answer to a call tells an id exactly if one was given, and it is the next one. -/
theorem Outcome.givenId?_eq {store : Store} {call : Call} {result : Answer × Store}
    (outcome : Outcome store call result) :
    (givenId? (call, result.1) = none ∧ result.2.lastId = store.lastId) ∨
      (givenId? (call, result.1) = some (store.lastId + 1) ∧
        result.2.lastId = store.lastId + 1) := by
  cases outcome with
  | created created =>
      obtain ⟨_, rfl, rfl⟩ := create_eq_ok_iff.mp created
      exact .inr ⟨rfl, rfl⟩
  | updated updated =>
      obtain ⟨_, _, _, rfl⟩ := update_eq_ok_iff.mp updated
      exact .inl ⟨rfl, rfl⟩
  | deleted id => exact .inl ⟨rfl, rfl⟩
  | deletedVersion version => exact .inl ⟨rfl, rfl⟩
  | refused refusal => cases refusal <;> exact .inl ⟨rfl, rfl⟩

theorem Ordered.size_delete {store : Store} (ordered : store.Ordered) (id : Nat) :
    (store.delete id).2.size + (if (store.delete id).1 then 1 else 0) = store.size :=
  length_filter_ne ordered.nodup_keys id

private theorem size_deleteVersion (store : Store) (version : Nat) :
    (store.deleteVersion version).2.size + (store.deleteVersion version).1 = store.size := by
  have fewer := List.length_filter_le (fun entry : Nat × Row => decide (entry.2.version ≠ version))
    store.entries
  simp only [deleteVersion, size]
  omega

/-- A call takes away as many rows as it is answered with, and only a create that succeeds adds
one. -/
theorem Ordered.size_outcome {store : Store} (ordered : store.Ordered) {call : Call}
    {result : Answer × Store} (outcome : Outcome store call result) :
    result.2.size + (if deletedOne (call, result.1) then 1 else 0) + deletedRows (call, result.1) =
      store.size + (givenId? (call, result.1)).toList.length := by
  cases outcome with
  | created created =>
      simp [size, ordered.entries_create created, deletedOne, deletedRows, givenId?]
  | updated updated =>
      obtain ⟨_, _, rfl, rfl⟩ := update_eq_ok_iff.mp updated
      exact length_replaceEntry _ _ store.entries
  | deleted id => exact ordered.size_delete id
  | deletedVersion version => exact size_deleteVersion store version
  | refused refusal => cases refusal <;> rfl

/-! Whole runs -/

/-- The ids that a run gives follow on the one given last before it. -/
theorem createdIds_transcript (store : Store) (calls : List Call) :
    createdIds (store.transcript calls) =
        List.range' (store.lastId + 1) (createdIds (store.transcript calls)).length ∧
      (store.afterCalls calls).lastId =
        store.lastId + (createdIds (store.transcript calls)).length := by
  induction calls generalizing store with
  | nil => exact ⟨rfl, rfl⟩
  | cons call calls ih =>
      obtain ⟨ids, last⟩ := ih (store.perform call).2
      rw [afterCalls_cons, last, transcript, createdIds]
      rcases (perform_outcome store call).givenId?_eq with ⟨nothing, same⟩ | ⟨given, next⟩
      · rw [List.filterMap_cons_none nothing, ← createdIds, ← same]
        exact ⟨ids, rfl⟩
      · rw [List.filterMap_cons_some given, ← createdIds, List.length_cons, List.range'_succ, next]
        rw [next] at ids
        exact ⟨congrArg _ ids, by omega⟩

/-- The rows at the end of a run and those that it deleted are those at its start and those that it
made. -/
theorem Ordered.size_afterCalls {store : Store} (ordered : store.Ordered) (calls : List Call) :
    (store.afterCalls calls).size + deletions (store.transcript calls) +
        versionDeletions (store.transcript calls) =
      store.size + (createdIds (store.transcript calls)).length := by
  induction calls generalizing store with
  | nil => rfl
  | cons call calls ih =>
      have step := ordered.size_outcome (perform_outcome store call)
      have rest := ih (ordered.perform call)
      have made : (createdIds (store.transcript (call :: calls))).length =
          (givenId? (call, (store.perform call).1)).toList.length +
            (createdIds ((store.perform call).2.transcript calls)).length := by
        rw [transcript, createdIds, createdIds]
        cases given : givenId? (call, (store.perform call).1) with
        | none => simp [List.filterMap_cons_none given]
        | some id => simp [List.filterMap_cons_some given, Nat.add_comm]
      rw [made]
      simp only [afterCalls_cons, transcript, deletions, versionDeletions, List.countP_cons,
        List.foldr_cons] at step rest ⊢
      omega

/-- What a store asks of the rows that it makes. -/
def Acceptable (row : Row) : Prop :=
  row.version ≠ 0 ∧ Text.trim row.kind.toList ≠ []

/-- No call makes a row that is not acceptable, nor changes one into such. -/
theorem Ordered.acceptable_outcome {store : Store} (ordered : store.Ordered)
    (acceptable : ∀ row ∈ store.rows, Acceptable row) {call : Call} {result : Answer × Store}
    (outcome : Outcome store call result) : ∀ row ∈ result.2.rows, Acceptable row := by
  cases outcome with
  | @created now new made changed created =>
      obtain ⟨⟨version, kind⟩, same, _⟩ := create_eq_ok_iff.mp created
      have fresh : Acceptable made := by
        rw [same]
        exact ⟨version, by simp [nextRow, Text.trim_eq_nil_iff, kind]⟩
      intro row member
      rw [rows, ordered.entries_create created, List.map_append] at member
      rcases List.mem_append.mp member with before | singleton
      · exact acceptable row before
      · rwa [List.mem_singleton.mp singleton]
  | @updated id change made changed updated =>
      obtain ⟨old, found, rfl, rfl⟩ := update_eq_ok_iff.mp updated
      intro row member
      obtain ⟨entry, inside, rfl⟩ := List.mem_map.mp member
      rcases mem_replaceEntry inside with rfl | before
      · exact acceptable old (ordered.row?_eq_some_iff.mp found).1
      · exact acceptable entry.2 (List.mem_map_of_mem before)
  | deleted id | deletedVersion version =>
      intro row member
      obtain ⟨entry, inside, rfl⟩ := List.mem_map.mp member
      exact acceptable entry.2 (List.mem_map_of_mem (List.mem_filter.mp inside).1)
  | refused => exact acceptable

theorem Ordered.acceptable_afterCalls {store : Store} (ordered : store.Ordered)
    (acceptable : ∀ row ∈ store.rows, Acceptable row) (calls : List Call) :
    ∀ row ∈ (store.afterCalls calls).rows, Acceptable row := by
  induction calls generalizing store with
  | nil => exact acceptable
  | cons call calls ih =>
      exact ih (ordered.perform call)
        (ordered.acceptable_outcome acceptable (perform_outcome store call))

/-- After any run, every row is kept under its own id, which names it and no other; ids are between
one and the one given last, versions are not zero and kinds are not blank. A create or an update
that is refused leaves the store as it was. The creates that succeeded were answered with the ids
one, two, three and so on, and the rows there are those made less those deleted, by id or with their
version. -/
theorem run_identities_and_accounts (calls : List Call) :
    (∀ entry ∈ (run calls).entries, entry.1 = entry.2.id) ∧
    ((run calls).entries.map Prod.fst).Pairwise (· < ·) ∧
    (∀ id row, (run calls).find id = .ok row ↔ row ∈ (run calls).rows ∧ row.id = id) ∧
    (∀ row ∈ (run calls).rows, 1 ≤ row.id ∧ row.id ≤ (run calls).lastId ∧ row.version ≠ 0 ∧
      Text.trim row.kind.toList ≠ []) ∧
    (∀ now new error, ((run calls).create now new).1 = .error error →
      ((run calls).create now new).2 = run calls) ∧
    (∀ id change error, ((run calls).update id change).1 = .error error →
      ((run calls).update id change).2 = run calls) ∧
    createdIds (transcript {} calls) = List.range' 1 (run calls).lastId ∧
    (run calls).lastId = (createdIds (transcript {} calls)).length ∧
    (run calls).size + deletions (transcript {} calls) + versionDeletions (transcript {} calls) =
      (createdIds (transcript {} calls)).length := by
  have ordered := ordered_run calls
  obtain ⟨ids, last⟩ := createdIds_transcript {} calls
  rw [Nat.zero_add] at ids last
  refine ⟨ordered.own, ordered.ascending, ?_, ?_, ?_, ?_,
    ids.trans (congrArg (List.range' 1) last.symm), last, ?_⟩
  · intro id row
    rw [find_eq_ok_iff, ordered.row?_eq_some_iff]
  · intro row member
    have bounds := ordered.bounded_row member
    exact ⟨bounds.1, bounds.2,
      ordered_empty.acceptable_afterCalls (by simp [rows]) calls row member⟩
  · intro now new error failed
    exact (refusal_of_create (Prod.ext failed rfl)).2
  · intro id change error failed
    exact (refusal_of_update (Prod.ext failed rfl)).2
  · exact (ordered_empty.size_afterCalls calls).trans (Nat.zero_add _)

/-- A create that is refused between two others, a deletion that finds nothing and two that do. At
the end, another create and an update are refused. -/
theorem run_accounts_after_deletions :
    let calls : List Call :=
      [.create ⟨0, 0⟩ { version := 7, kind := "full", stored := {} },
       .create ⟨1, 0⟩ { version := 7, kind := " ", stored := {} },
       .delete 1, .delete 1,
       .create ⟨2, 0⟩ { version := 8, kind := "full", stored := {} },
       .create ⟨3, 0⟩ { version := 9, kind := "full", stored := {} }, .deleteVersion 9]
    (run calls).find 2 = .ok
        { id := 2, version := 8, kind := "full", stored := {}, created := ⟨2, 0⟩ } ∧
      2 ≤ (run calls).lastId ∧ createdIds (transcript {} calls) = [1, 2, 3] ∧
      (run calls).size = 1 ∧
      ((run calls).create ⟨4, 0⟩ { version := 0, kind := "full", stored := {} }).2 = run calls ∧
      ((run calls).update 3 { score := some ⟨0⟩ }).2 = run calls := by
  intro calls
  obtain ⟨_, _, named, bounds, creates, updates, ids, _, size⟩ := run_identities_and_accounts calls
  have member : (⟨2, 8, "full", {}, ⟨2, 0⟩⟩ : Row) ∈ (run calls).rows := List.mem_singleton.mpr rfl
  exact ⟨(named 2 _).mpr ⟨member, rfl⟩, (bounds _ member).2.1, ids,
    Nat.add_right_cancel (m := 2) size, creates _ _ _ rfl, updates _ _ _ rfl⟩

end Store

end SnippetAudit
