import Mathlib.Data.List.Sort
import SnippetAudit.Proofs.Store.Accounting
import SnippetAudit.Proofs.Store.Restoring

/-!
The newest row of a version.

A run whose clock does not go back makes its rows in the order of their times as well as of their
ids, and neither updates nor deletions change that. So the newest row of a version is the last one
of those that the run made and that are still there, however many were made at one time.
-/

set_option autoImplicit false

namespace SnippetAudit.Store

/-! The order of creation -/

/-- The time of a create that made a row. -/
def creationTime? : Call × Answer → Option Instant
  | (.create now _, .row _) => some now
  | _ => none

def creationTimes (entries : List (Call × Answer)) : List Instant :=
  entries.filterMap creationTime?

/-- No time is before one that stands in front of it. -/
def NeverDecrease (times : List Instant) : Prop :=
  times.Pairwise fun earlier later => later.isBefore earlier = false

/-- The rows of a version that are there at the end of a run, in the order in which the run made
them. -/
def survivors (calls : List Call) (version : Nat) : List Row :=
  (createdIds (transcript {} calls)).filterMap fun id =>
    ((run calls).row? id).filter fun row => row.version = version

private theorem creationTimes_cons (entry : Call × Answer) (entries : List (Call × Answer)) :
    creationTimes (entry :: entries) = (creationTime? entry).toList ++ creationTimes entries := by
  unfold creationTimes
  cases made : creationTime? entry with
  | none => rw [List.filterMap_cons_none made, Option.toList_none, List.nil_append]
  | some now => rw [List.filterMap_cons_some made, Option.toList_some, List.singleton_append]

/-- A call adds the time of the row that it makes behind the others, and can only drop times. -/
theorem Ordered.times_outcome {store : Store} (ordered : store.Ordered) {call : Call}
    {result : Answer × Store} (outcome : Outcome store call result) :
    (result.2.rows.map Row.created).Sublist
      (store.rows.map Row.created ++ (creationTime? (call, result.1)).toList) := by
  cases outcome with
  | @created now new made changed created =>
      obtain ⟨_, same, _⟩ := create_eq_ok_iff.mp created
      simp [rows, ordered.entries_create created, creationTime?, same, nextRow]
  | @updated id change made changed updated =>
      obtain ⟨old, found, rfl, rfl⟩ := update_eq_ok_iff.mp updated
      have same : (changedRow old change).created = old.created := rfl
      rw [rows, rows, List.map_map, List.map_map, map_comp_replaceEntry found same]
      exact List.sublist_append_left _ _
  | deleted id | deletedVersion version =>
      exact ((List.filter_sublist.map Prod.snd).map Row.created).trans
        (List.sublist_append_left _ _)
  | refused => exact List.sublist_append_left _ _

theorem Ordered.times_afterCalls {store : Store} (ordered : store.Ordered) (calls : List Call) :
    ((store.afterCalls calls).rows.map Row.created).Sublist
      (store.rows.map Row.created ++ creationTimes (store.transcript calls)) := by
  induction calls generalizing store with
  | nil => exact List.sublist_append_left _ _
  | cons call calls ih =>
      have step := ordered.times_outcome (perform_outcome store call)
      have rest := ih (ordered.perform call)
      rw [afterCalls_cons, transcript, creationTimes_cons, ← List.append_assoc]
      exact rest.trans (step.append_right _)

/-- The rows are in the order of their times. -/
def InTime (store : Store) : Prop :=
  NeverDecrease (store.rows.map Row.created)

private theorem inTime_run {calls : List Call}
    (clock : NeverDecrease (creationTimes (transcript {} calls))) : (run calls).InTime :=
  clock.sublist (ordered_empty.times_afterCalls calls)

theorem InTime.filter {store : Store} (inTime : store.InTime) (keep : Nat × Row → Bool) :
    InTime { store with entries := store.entries.filter keep } :=
  List.Pairwise.sublist ((List.filter_sublist.map Prod.snd).map Row.created) inTime

/-! The newest row -/

private theorem newer_eq_right {left right : Row} (ids : left.id < right.id)
    (times : right.created.isBefore left.created = false) : newer left right = right := by
  unfold newer
  split
  · rfl
  · rw [times, if_neg Bool.false_ne_true]

private theorem foldl_newer {row : Row} {rows : List Row}
    (order : (row :: rows).Pairwise fun left right =>
      left.id < right.id ∧ right.created.isBefore left.created = false) :
    some (rows.foldl newer row) = (row :: rows).getLast? := by
  induction rows generalizing row with
  | nil => rfl
  | cons next rows ih =>
      obtain ⟨first, rest⟩ := List.pairwise_cons.mp order
      obtain ⟨ids, times⟩ := first next List.mem_cons_self
      rw [List.foldl_cons, newer_eq_right ids times, ih rest, List.getLast?_cons_cons]

theorem Ordered.newestOf?_eq {store : Store} (ordered : store.Ordered) (inTime : store.InTime)
    (version : Nat) :
    store.newestOf? version = (store.rows.filter fun row => row.version = version).getLast? := by
  have order := (ordered.ascending_rows.and (List.pairwise_map.mp inTime)).filter fun row =>
    decide (row.version = version)
  unfold newestOf?
  cases rows : store.rows.filter fun row => row.version = version with
  | nil => rfl
  | cons row rest =>
      rw [rows] at order
      exact foldl_newer order

/-! Survivors -/

private theorem createdIds_run (calls : List Call) :
    createdIds (transcript {} calls) = List.range' 1 (run calls).lastId := by
  obtain ⟨ids, last⟩ := createdIds_transcript {} calls
  rw [Nat.zero_add] at ids last
  rwa [← last] at ids

theorem mem_survivors {calls : List Call} {version : Nat} {row : Row} :
    row ∈ survivors calls version ↔ row ∈ (run calls).rows ∧ row.version = version := by
  have ordered := ordered_run calls
  simp only [survivors, List.mem_filterMap, Option.filter_eq_some_iff, ordered.row?_eq_some_iff,
    decide_eq_true_eq]
  constructor
  · rintro ⟨id, _, ⟨member, _⟩, same⟩
    exact ⟨member, same⟩
  · rintro ⟨member, same⟩
    obtain ⟨positive, given⟩ := ordered.bounded_row member
    refine ⟨row.id, ?_, ⟨member, rfl⟩, same⟩
    rw [createdIds_run, List.mem_range'_1]
    omega

theorem survivors_eq (calls : List Call) (version : Nat) :
    survivors calls version = (run calls).rows.filter fun row => row.version = version := by
  have ordered := ordered_run calls
  have ascending : (survivors calls version).Pairwise fun left right => left.id < right.id := by
    have ids : (createdIds (transcript {} calls)).Pairwise (· < ·) := by
      rw [createdIds_run]
      exact List.pairwise_lt_range' 1
    refine ids.filterMap _ ?_
    intro id other less left leftRow right rightRow
    rw [Option.filter_eq_some_iff, ordered.row?_eq_some_iff] at leftRow rightRow
    rwa [leftRow.1.2, rightRow.1.2]
  have irreflexive : Std.Irrefl fun left right : Row => left.id < right.id :=
    ⟨fun row => Nat.lt_irrefl row.id⟩
  have antisymmetric : Std.Antisymm fun left right : Row => left.id < right.id :=
    ⟨fun left right less more => absurd less more.asymm⟩
  apply ascending.eq_of_mem_iff (ordered.ascending_rows.filter _)
  intro row
  rw [mem_survivors, List.mem_filter, decide_eq_true_eq]

/-- Once the last row of a version is deleted, the others of the version are left. -/
theorem Ordered.filter_delete_last {store : Store} (ordered : store.Ordered) {version : Nat}
    {earlier : List Row} {row : Row}
    (rows : (store.rows.filter fun row => row.version = version) = earlier ++ [row]) :
    ((store.delete row.id).2.rows.filter fun row => row.version = version) = earlier := by
  have apart : ∀ other ∈ earlier, other.id ≠ row.id := by
    have ascending := ordered.ascending_rows.filter fun row => decide (row.version = version)
    rw [rows, List.pairwise_append] at ascending
    exact fun other inside => (ascending.2.2 other inside row List.mem_cons_self).ne
  have swapped : ((store.delete row.id).2.rows.filter fun row => row.version = version) =
      (store.rows.filter fun row => row.version = version).filter
        fun other => other.id ≠ row.id := by
    rw [ordered.rows_delete, List.filter_comm]
  rw [swapped, rows, List.filter_append, List.filter_eq_self.mpr (by simpa using apart)]
  simp

/-- In a run whose clock does not go back, the newest row of a version is the one that was made last
of those still there, and there is none exactly if no row of the version is there. It is as its
create made it, with every part of its record as the latest update behind the create wrote it. Once
it is deleted, the one made before it is the newest. -/
theorem newestOf?_run_last_made {calls : List Call}
    (clock : NeverDecrease (creationTimes (transcript {} calls))) (version : Nat) :
    ((run calls).newestOf? version = none ↔ ∀ row ∈ (run calls).rows, row.version ≠ version) ∧
    (run calls).newestOf? version = (survivors calls version).getLast? ∧
    (∀ row, row ∈ survivors calls version ↔ row ∈ (run calls).rows ∧ row.version = version) ∧
    (∀ row, (run calls).newestOf? version = some row →
      ∃ now new later, Creates calls row.id now new later ∧
        row = { id := row.id, version, kind := new.kind, created := now,
                stored := lastWritten row.id later new.stored }) ∧
    ∀ earlier row, survivors calls version = earlier ++ [row] →
      (run (calls ++ [.delete row.id])).newestOf? version = earlier.getLast? := by
  have ordered := ordered_run calls
  have inTime := inTime_run clock
  have newest := ordered.newestOf?_eq inTime version
  refine ⟨?_, ?_, fun row => mem_survivors, ?_, ?_⟩
  · rw [newest, List.getLast?_eq_none_iff, List.filter_eq_nil_iff]
    simp
  · rw [newest, survivors_eq]
  · intro row found
    rw [newest] at found
    obtain ⟨member, same⟩ := List.mem_filter.mp (List.mem_of_getLast? found)
    obtain ⟨now, new, later, creates⟩ := exists_creates_of_mem member
    have whole := eq_of_mem member creates
    have versions : version = new.version :=
      (of_decide_eq_true same).symm.trans (congrArg Row.version whole)
    exact ⟨now, new, later, creates, versions ▸ whole⟩
  · intro earlier row split
    rw [survivors_eq] at split
    have deleted : run (calls ++ [.delete row.id]) = ((run calls).delete row.id).2 :=
      run_append _ _
    have keptOrder : ((run calls).delete row.id).2.Ordered := ordered.filter _
    have keptTimes : ((run calls).delete row.id).2.InTime := inTime.filter _
    rw [deleted, keptOrder.newestOf?_eq keptTimes, ordered.filter_delete_last split]

/-- Two rows made at one time, behind a deleted one and in front of one of another version; the
later one is updated, and deleted in the end. -/
theorem newestOf?_run_last_made_at_once :
    let row (seconds : Int) (version : Nat) : Call :=
      .create ⟨seconds, 0⟩ { version, kind := "full", stored := {} }
    let calls : List Call :=
      [row 0 7, row 5 7, row 5 7, row 5 8, .delete 1, .update 3 { score := some (.ofFloat 2.5) }]
    NeverDecrease (creationTimes (transcript {} calls)) ∧
    (run calls).newestOf? 7 = some
      { id := 3, version := 7, kind := "full", stored := { score := some (.ofFloat 2.5) },
        created := ⟨5, 0⟩ } ∧
    (run (calls ++ [.delete 3])).newestOf? 7 = some
      { id := 2, version := 7, kind := "full", stored := {}, created := ⟨5, 0⟩ } := by
  intro row calls
  have clock : NeverDecrease (creationTimes (transcript {} calls)) := by
    unfold NeverDecrease
    decide +kernel
  obtain ⟨_, newest, _, _, next⟩ := newestOf?_run_last_made clock 7
  obtain ⟨second, third, made, secondIs, thirdIs⟩ : ∃ second third,
      survivors calls 7 = [second] ++ [third] ∧
      second = { id := 2, version := 7, kind := "full", stored := {}, created := ⟨5, 0⟩ } ∧
      third = { id := 3, version := 7, kind := "full", stored := { score := some (.ofFloat 2.5) },
                created := ⟨5, 0⟩ } := ⟨_, _, rfl, rfl, rfl⟩
  have after := next [second] third made
  have named : third.id = 3 := by rw [thirdIs]
  rw [named, secondIs] at after
  refine ⟨clock, ?_, after⟩
  rw [newest, made, thirdIs]
  rfl

end SnippetAudit.Store
