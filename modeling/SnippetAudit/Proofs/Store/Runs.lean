import SnippetAudit.Proofs.Entries
import SnippetAudit.Store

/-!
Runs of a store: what each call does to the row of an id, and what no call breaks.

A store is looked at through `row?`, the row that is kept under an id. Every call is described by
its effect on that view, so that laws about runs follow by induction over the calls without opening
the entries again.
-/

set_option autoImplicit false

namespace SnippetAudit.Store

/-! Calls -/

/-- A call that may change a store. The time at which a row is made is part of the call. -/
inductive Call where
  | create (now : Instant) (new : NewRow)
  | update (id : Nat) (change : RowChange)
  | delete (id : Nat)
  | deleteVersion (version : Nat)

/-- What a call answers. -/
inductive Answer where
  | row (row : Row)
  | found (was : Bool)
  | count (rows : Nat)
  | refused (error : StoreError)

/-- What a call that makes or changes a row answers. -/
def Answer.ofResult : Except StoreError Row → Answer
  | .ok made => .row made
  | .error error => .refused error

/-- The answer to a call, and the store that the call leaves behind. -/
def perform (store : Store) : Call → Answer × Store
  | .create now new => (.ofResult (store.create now new).1, (store.create now new).2)
  | .update id change => (.ofResult (store.update id change).1, (store.update id change).2)
  | .delete id => (.found (store.delete id).1, (store.delete id).2)
  | .deleteVersion version =>
      (.count (store.deleteVersion version).1, (store.deleteVersion version).2)

/-- The store that calls lead to, one after the other. -/
def afterCalls (store : Store) (calls : List Call) : Store :=
  calls.foldl (fun store call => (store.perform call).2) store

/-- The store that calls lead to from a new one. -/
def run (calls : List Call) : Store :=
  afterCalls {} calls

@[simp] theorem afterCalls_nil (store : Store) : store.afterCalls [] = store := rfl

@[simp] theorem afterCalls_cons (store : Store) (call : Call) (calls : List Call) :
    store.afterCalls (call :: calls) = (store.perform call).2.afterCalls calls := rfl

theorem run_append (earlier later : List Call) :
    run (earlier ++ later) = (run earlier).afterCalls later :=
  List.foldl_append ..

/-! Making and changing a row -/

/-- The row that a store makes next. -/
def nextRow (store : Store) (now : Instant) (new : NewRow) : Row where
  id := store.lastId + 1
  version := new.version
  kind := new.kind
  stored := new.stored
  created := now

theorem create_eq_ok_iff {store changed : Store} {now : Instant} {new : NewRow} {row : Row} :
    store.create now new = (.ok row, changed) ↔
      (new.version ≠ 0 ∧ Text.isAllWhite new.kind.toList = false) ∧
        row = store.nextRow now new ∧
        changed =
          { entries := insertEntry row.id row store.entries, lastId := store.lastId + 1 } := by
  unfold create
  split_ifs with noVersion blank
  · simp [noVersion]
  · simp [blank]
  · simp only [Prod.mk.injEq, Except.ok.injEq]
    constructor
    · rintro ⟨rfl, rfl⟩
      exact ⟨⟨noVersion, by simpa using blank⟩, rfl, rfl⟩
    · rintro ⟨_, rfl, rfl⟩
      exact ⟨rfl, rfl⟩

/-- The row that is kept under an id. -/
def row? (store : Store) (id : Nat) : Option Row :=
  store.entries.lookup id

theorem find_eq (store : Store) (id : Nat) :
    store.find id = match store.row? id with
      | some row => .ok row
      | none => .error (.notFound id) := rfl

theorem find_eq_ok_iff {store : Store} {id : Nat} {row : Row} :
    store.find id = .ok row ↔ store.row? id = some row := by
  rw [find_eq]
  cases store.row? id <;> simp

theorem find_eq_notFound_iff {store : Store} {id : Nat} :
    store.find id = .error (.notFound id) ↔ store.row? id = none := by
  rw [find_eq]
  cases store.row? id <;> simp

theorem row?_eq_none_iff {store : Store} {id : Nat} :
    store.row? id = none ↔ ∀ entry ∈ store.entries, entry.1 ≠ id := by
  rw [row?, lookup_eq_none_iff_notMem, List.mem_map]
  exact not_exists.trans (forall_congr' fun entry => not_and)

/-- A changed row; only its record differs. -/
def changedRow (row : Row) (change : RowChange) : Row :=
  { row with stored := change.apply row.stored }

private theorem changedRow_of_isEmpty {change : RowChange} (empty : change.isEmpty = true)
    (row : Row) : changedRow row change = row := by
  simp only [RowChange.isEmpty, Bool.and_eq_true, Option.isNone_iff_eq_none] at empty
  obtain ⟨⟨⟨score, security⟩, performance⟩, smells⟩ := empty
  simp [changedRow, RowChange.apply, score, security, performance, smells]

theorem update_of_missing {store : Store} {id : Nat} (missing : store.row? id = none)
    (change : RowChange) : store.update id change = (.error (.notFound id), store) := by
  rw [update, find_eq_notFound_iff.mpr missing]

/-- A change that carries nothing puts the row over itself. -/
theorem update_of_found {store : Store} {id : Nat} {row : Row} (found : store.row? id = some row)
    (change : RowChange) :
    store.update id change = (.ok (changedRow row change),
      { store with entries := replaceEntry id (changedRow row change) store.entries }) := by
  rw [update, find_eq_ok_iff.mpr found]
  simp only
  split
  · next empty => rw [changedRow_of_isEmpty empty, replaceEntry_eq_self found]
  · rfl

theorem update_eq_ok_iff {store changed : Store} {id : Nat} {change : RowChange} {row : Row} :
    store.update id change = (.ok row, changed) ↔
      ∃ old, store.row? id = some old ∧ row = changedRow old change ∧
        changed = { store with entries := replaceEntry id row store.entries } := by
  cases found : store.row? id with
  | none => simp [update_of_missing found]
  | some old =>
      simp only [update_of_found found, Prod.mk.injEq, Except.ok.injEq, Option.some.injEq]
      constructor
      · rintro ⟨rfl, rfl⟩
        exact ⟨old, rfl, rfl, rfl⟩
      · rintro ⟨_, rfl, rfl, rfl⟩
        exact ⟨rfl, rfl⟩

/-! What a call can do -/

/-- Why a store refuses a call. Deletions are never refused. -/
inductive Refusal (store : Store) : Call → StoreError → Prop where
  | noVersion {now : Instant} {new : NewRow} :
      new.version = 0 → Refusal store (.create now new) .versionRequired
  | blankKind {now : Instant} {new : NewRow} :
      new.version ≠ 0 → Text.isAllWhite new.kind.toList = true →
      Refusal store (.create now new) .kindRequired
  | unknownRow {id : Nat} {change : RowChange} :
      (∀ entry ∈ store.entries, entry.1 ≠ id) → Refusal store (.update id change) (.notFound id)

/-- All that a call can do. -/
inductive Outcome (store : Store) : Call → Answer × Store → Prop where
  | created {now : Instant} {new : NewRow} {row : Row} {changed : Store} :
      store.create now new = (.ok row, changed) →
      Outcome store (.create now new) (.row row, changed)
  | updated {id : Nat} {change : RowChange} {row : Row} {changed : Store} :
      store.update id change = (.ok row, changed) →
      Outcome store (.update id change) (.row row, changed)
  | deleted (id : Nat) :
      Outcome store (.delete id) (.found (store.delete id).1, (store.delete id).2)
  | deletedVersion (version : Nat) :
      Outcome store (.deleteVersion version)
        (.count (store.deleteVersion version).1, (store.deleteVersion version).2)
  | refused {call : Call} {error : StoreError} :
      Refusal store call error → Outcome store call (.refused error, store)

/-- A create that is refused leaves the store as it was. -/
theorem refusal_of_create {store changed : Store} {now : Instant} {new : NewRow}
    {error : StoreError} (failed : store.create now new = (.error error, changed)) :
    Refusal store (.create now new) error ∧ changed = store := by
  unfold create at failed
  split_ifs at failed with noVersion blank
  · cases failed
    exact ⟨.noVersion noVersion, rfl⟩
  · cases failed
    exact ⟨.blankKind noVersion blank, rfl⟩
  · cases failed

/-- An update that is refused leaves the store as it was. -/
theorem refusal_of_update {store changed : Store} {id : Nat} {change : RowChange}
    {error : StoreError} (failed : store.update id change = (.error error, changed)) :
    Refusal store (.update id change) error ∧ changed = store := by
  cases found : store.row? id with
  | none =>
      rw [update_of_missing found] at failed
      cases failed
      exact ⟨.unknownRow (row?_eq_none_iff.mp found), rfl⟩
  | some old =>
      rw [update_of_found found] at failed
      cases failed

theorem perform_outcome (store : Store) (call : Call) :
    Outcome store call (store.perform call) := by
  cases call with
  | create now new =>
      rcases result : store.create now new with ⟨answer | answer, changed⟩
      · obtain ⟨refusal, rfl⟩ := refusal_of_create result
        simp only [perform, result]
        exact .refused refusal
      · simp only [perform, result]
        exact .created result
  | update id change =>
      rcases result : store.update id change with ⟨answer | answer, changed⟩
      · obtain ⟨refusal, rfl⟩ := refusal_of_update result
        simp only [perform, result]
        exact .refused refusal
      · simp only [perform, result]
        exact .updated result
  | delete id => exact .deleted id
  | deleteVersion version => exact .deletedVersion version

/-! What no call breaks -/

/-- Every row is kept under its own id. The keys ascend, are above zero and have all been given. -/
structure Ordered (store : Store) : Prop where
  ascending : (store.entries.map Prod.fst).Pairwise (· < ·)
  own : ∀ entry ∈ store.entries, entry.1 = entry.2.id
  bounded : ∀ entry ∈ store.entries, 0 < entry.1 ∧ entry.1 ≤ store.lastId

theorem Ordered.nodup_keys {store : Store} (ordered : store.Ordered) :
    (store.entries.map Prod.fst).Nodup :=
  ordered.ascending.imp Nat.ne_of_lt

theorem Ordered.map_id_rows {store : Store} (ordered : store.Ordered) :
    store.rows.map Row.id = store.entries.map Prod.fst := by
  rw [rows, List.map_map]
  exact List.map_congr_left fun entry member => (ordered.own entry member).symm

theorem Ordered.ascending_rows {store : Store} (ordered : store.Ordered) :
    store.rows.Pairwise fun left right => left.id < right.id := by
  rw [← List.pairwise_map (f := Row.id), ordered.map_id_rows]
  exact ordered.ascending

theorem Ordered.nodup_ids {store : Store} (ordered : store.Ordered) :
    (store.rows.map Row.id).Nodup := by
  rw [ordered.map_id_rows]
  exact ordered.nodup_keys

/-- What is kept under an id is the one row with that id. -/
theorem Ordered.row?_eq_some_iff {store : Store} (ordered : store.Ordered) {id : Nat} {row : Row} :
    store.row? id = some row ↔ row ∈ store.rows ∧ row.id = id := by
  rw [row?, lookup_eq_some_iff_mem ordered.nodup_keys, rows, List.mem_map]
  constructor
  · intro member
    exact ⟨⟨_, member, rfl⟩, (ordered.own _ member).symm⟩
  · rintro ⟨⟨entry, member, rfl⟩, rfl⟩
    rw [← ordered.own entry member]
    exact member

theorem Ordered.bounded_row {store : Store} (ordered : store.Ordered) {row : Row}
    (member : row ∈ store.rows) : 0 < row.id ∧ row.id ≤ store.lastId := by
  obtain ⟨entry, inside, rfl⟩ := List.mem_map.mp member
  rw [← ordered.own entry inside]
  exact ordered.bounded entry inside

theorem ordered_empty : Ordered {} where
  ascending := .nil
  own := by simp
  bounded := by simp

/-- The key of a new row follows all others. -/
theorem Ordered.entries_create {store changed : Store} (ordered : store.Ordered) {now : Instant}
    {new : NewRow} {row : Row} (created : store.create now new = (.ok row, changed)) :
    changed.entries = store.entries ++ [(store.lastId + 1, row)] := by
  obtain ⟨_, rfl, rfl⟩ := create_eq_ok_iff.mp created
  apply insertEntry_eq_append
  intro entry member
  have bounds := ordered.bounded entry member
  simp only [nextRow]
  omega

theorem Ordered.create {store changed : Store} (ordered : store.Ordered) {now : Instant}
    {new : NewRow} {row : Row} (created : store.create now new = (.ok row, changed)) :
    changed.Ordered := by
  have entries := ordered.entries_create created
  obtain ⟨_, made, same⟩ := create_eq_ok_iff.mp created
  have last : changed.lastId = store.lastId + 1 := by rw [same]
  constructor
  · rw [entries, List.map_append, List.pairwise_append]
    refine ⟨ordered.ascending, List.pairwise_singleton _ _, ?_⟩
    intro key member fresh singleton
    obtain ⟨entry, inside, rfl⟩ := List.mem_map.mp member
    rw [List.mem_singleton.mp singleton]
    exact Nat.lt_succ_of_le (ordered.bounded entry inside).2
  all_goals
    rw [entries]
    intro entry member
    rcases List.mem_append.mp member with before | singleton
  · exact ordered.own entry before
  · rw [List.mem_singleton.mp singleton, made]
    rfl
  · have bounds := ordered.bounded entry before
    omega
  · rw [List.mem_singleton.mp singleton]
    omega

/-- Keeping some entries keeps the order. -/
theorem Ordered.filter {store : Store} (ordered : store.Ordered) (keep : Nat × Row → Bool) :
    Ordered { store with entries := store.entries.filter keep } where
  ascending := ordered.ascending.sublist (List.filter_sublist.map Prod.fst)
  own := fun entry member => ordered.own entry (List.mem_filter.mp member).1
  bounded := fun entry member => ordered.bounded entry (List.mem_filter.mp member).1

theorem Ordered.rows_delete {store : Store} (ordered : store.Ordered) (id : Nat) :
    (store.delete id).2.rows = store.rows.filter fun row => row.id ≠ id := by
  rw [rows, rows, List.filter_map]
  refine congrArg (List.map Prod.snd) (List.filter_congr fun entry member => ?_)
  rw [Function.comp_apply, ordered.own entry member]

theorem Ordered.update {store changed : Store} (ordered : store.Ordered) {id : Nat}
    {change : RowChange} {row : Row} (updated : store.update id change = (.ok row, changed)) :
    changed.Ordered := by
  obtain ⟨old, found, rfl, rfl⟩ := update_eq_ok_iff.mp updated
  have present := mem_of_lookup_eq_some found
  constructor
  · rw [map_fst_replaceEntry]
    exact ordered.ascending
  all_goals
    intro entry member
    rcases mem_replaceEntry member with rfl | before
  · exact ordered.own (id, old) present
  · exact ordered.own entry before
  · exact ordered.bounded (id, old) present
  · exact ordered.bounded entry before

theorem Ordered.outcome {store : Store} (ordered : store.Ordered) {call : Call}
    {result : Answer × Store} (outcome : Outcome store call result) : result.2.Ordered := by
  cases outcome with
  | created made => exact ordered.create made
  | updated made => exact ordered.update made
  | deleted id => exact ordered.filter _
  | deletedVersion version => exact ordered.filter _
  | refused => exact ordered

theorem Ordered.perform {store : Store} (ordered : store.Ordered) (call : Call) :
    (store.perform call).2.Ordered :=
  ordered.outcome (perform_outcome store call)

theorem Ordered.afterCalls {store : Store} (ordered : store.Ordered) (calls : List Call) :
    (store.afterCalls calls).Ordered := by
  induction calls generalizing store with
  | nil => exact ordered
  | cons call calls ih => exact ih (ordered.perform call)

theorem ordered_run (calls : List Call) : (run calls).Ordered :=
  ordered_empty.afterCalls calls

/-! The row of an id -/

/-- Nothing is kept under an id that has not been given. -/
theorem Ordered.row?_unused {store : Store} (ordered : store.Ordered) {id : Nat}
    (unused : id = 0 ∨ store.lastId < id) : store.row? id = none := by
  rw [row?_eq_none_iff]
  rintro entry member rfl
  have bounds := ordered.bounded entry member
  omega

theorem row?_create {store changed : Store} {now : Instant} {new : NewRow} {row : Row}
    (created : store.create now new = (.ok row, changed)) (id : Nat) :
    changed.row? id = if id = row.id then some row else store.row? id := by
  obtain ⟨_, _, rfl⟩ := create_eq_ok_iff.mp created
  exact lookup_insertEntry row.id id row store.entries

private theorem row?_update {store changed : Store} {target : Nat} {change : RowChange} {row : Row}
    (updated : store.update target change = (.ok row, changed)) (id : Nat) :
    changed.row? id = if id = target then some row else store.row? id := by
  obtain ⟨old, found, _, rfl⟩ := update_eq_ok_iff.mp updated
  exact lookup_replaceEntry row (Option.isSome_iff_exists.mpr ⟨old, found⟩) id

private theorem row?_delete (store : Store) (target id : Nat) :
    (store.delete target).2.row? id = if id = target then none else store.row? id :=
  lookup_filter_ne target id store.entries

theorem Ordered.row?_deleteVersion {store : Store} (ordered : store.Ordered) (version id : Nat) :
    (store.deleteVersion version).2.row? id =
      (store.row? id).filter fun row => row.version ≠ version :=
  lookup_filter_snd ordered.nodup_keys (fun row => decide (row.version ≠ version)) id

/-- What a call makes of the row of an id. -/
def Call.effect (id : Nat) (row : Row) : Call → Option Row
  | .create _ _ => some row
  | .update other change => some (if other = id then changedRow row change else row)
  | .delete other => if other = id then none else some row
  | .deleteVersion version => if row.version = version then none else some row

theorem Outcome.row?_of_some {store : Store} {call : Call} {result : Answer × Store}
    (outcome : Outcome store call result) (ordered : store.Ordered) {id : Nat} {row : Row}
    (found : store.row? id = some row) : result.2.row? id = call.effect id row := by
  obtain ⟨member, rfl⟩ := ordered.row?_eq_some_iff.mp found
  have given := (ordered.bounded_row member).2
  cases outcome with
  | @created now new made changed created =>
      obtain ⟨_, same, _⟩ := create_eq_ok_iff.mp created
      have fresh : made.id = store.lastId + 1 := by rw [same]; rfl
      rw [row?_create created, if_neg (by omega), found]
      rfl
  | @updated target change made changed updated =>
      obtain ⟨old, oldFound, rfl, _⟩ := update_eq_ok_iff.mp updated
      rw [row?_update updated]
      by_cases hit : row.id = target
      · subst hit
        cases oldFound.symm.trans found
        simp [Call.effect]
      · rw [if_neg hit, found, Call.effect, if_neg (Ne.symm hit)]
  | deleted target =>
      rw [row?_delete, found]
      by_cases hit : row.id = target
      · rw [if_pos hit, Call.effect, if_pos hit.symm]
      · rw [if_neg hit, Call.effect, if_neg (Ne.symm hit)]
  | deletedVersion version =>
      rw [ordered.row?_deleteVersion, found]
      by_cases hit : row.version = version <;> simp [Call.effect, hit]
  | refused refusal =>
      rw [found]
      cases refusal with
      | noVersion => rfl
      | blankKind => rfl
      | unknownRow missing =>
          rw [Call.effect, if_neg (Ne.symm (missing _ (mem_of_lookup_eq_some found)))]

/-- Ids are given once: where a given id names no row, no call brings one back. -/
theorem Outcome.row?_of_none {store : Store} {call : Call} {result : Answer × Store}
    (outcome : Outcome store call result) (ordered : store.Ordered) {id : Nat}
    (given : id ≤ store.lastId) (missing : store.row? id = none) :
    result.2.row? id = none := by
  cases outcome with
  | @created now new made changed created =>
      obtain ⟨_, same, _⟩ := create_eq_ok_iff.mp created
      have fresh : made.id = store.lastId + 1 := by rw [same]; rfl
      rw [row?_create created, if_neg (by omega), missing]
  | updated updated =>
      obtain ⟨old, oldFound, _⟩ := update_eq_ok_iff.mp updated
      rw [row?_update updated]
      split_ifs with hit
      · subst hit
        cases oldFound.symm.trans missing
      · exact missing
  | deleted target =>
      rw [row?_delete, missing]
      exact ite_self _
  | deletedVersion version => rw [ordered.row?_deleteVersion, missing, Option.filter_none]
  | refused => exact missing

theorem Outcome.lastId_le {store : Store} {call : Call} {result : Answer × Store}
    (outcome : Outcome store call result) : store.lastId ≤ result.2.lastId := by
  cases outcome with
  | created created =>
      obtain ⟨_, _, rfl⟩ := create_eq_ok_iff.mp created
      exact Nat.le_succ _
  | updated updated =>
      obtain ⟨_, _, _, rfl⟩ := update_eq_ok_iff.mp updated
      exact Nat.le_refl _
  | _ => exact Nat.le_refl _

end SnippetAudit.Store
