import SnippetAudit.Proofs.Score
import SnippetAudit.Proofs.Store.Runs

/-!
The ranking of the rows that have a score.

The rows that are shown are the first ones of a ranking that does not depend on the limit. It holds
every row with a score once, and is in a strict order: by the total order of doubles, and by the id
where two scores have the same bits.
-/

set_option autoImplicit false

namespace SnippetAudit.Store

/-- One row ranks above another: its score is further up in the total order of doubles, or the
scores are the same and its id is lower. -/
def RanksAbove (left right : Row) : Prop :=
  ∃ leftScore rightScore,
    left.stored.score = some leftScore ∧ right.stored.score = some rightScore ∧
      (Decimal.Precedes rightScore.bits.toNat leftScore.bits.toNat ∨
        leftScore = rightScore ∧ left.id < right.id)

/-- Whether a row has a score. -/
def hasScore (row : Row) : Bool :=
  row.stored.score.isSome

/-- All rows that have a score, ranked. -/
def ranking (store : Store) : List Row :=
  ((store.rows.filterMap scored).mergeSort ranksFirst).map Prod.snd

private theorem topScored_eq_take (store : Store) (limit : Nat) :
    store.topScored limit = store.ranking.take limit := by
  rw [topScored, ranking, List.map_take]

private theorem scored_eq_some_iff {row : Row} {pair : Score × Row} :
    scored row = some pair ↔ row.stored.score = some pair.1 ∧ row = pair.2 := by
  rcases pair with ⟨score, other⟩
  simp [scored]

theorem map_filterMap_scored (rows : List Row) :
    (rows.filterMap scored).map Prod.snd = rows.filter hasScore := by
  induction rows with
  | nil => rfl
  | cons row rows ih =>
      cases score : row.stored.score with
      | none => simp [scored, hasScore, score, ← ih]
      | some value => simp [scored, hasScore, score, ← ih]

theorem perm_ranking (store : Store) : store.ranking.Perm (store.rows.filter hasScore) := by
  rw [← map_filterMap_scored]
  exact (List.mergeSort_perm _ _).map Prod.snd

theorem ranksFirst_iff {left right : Score × Row} :
    ranksFirst left right = true ↔
      right.1.orderKey < left.1.orderKey ∨
        left.1.orderKey = right.1.orderKey ∧ left.2.id ≤ right.2.id := by
  simp [ranksFirst]

private theorem ranksFirst_trans {first second third : Score × Row}
    (left : ranksFirst first second = true)
    (right : ranksFirst second third = true) : ranksFirst first third = true := by
  rw [ranksFirst_iff] at *
  omega

private theorem ranksFirst_total (left right : Score × Row) :
    (ranksFirst left right || ranksFirst right left) = true := by
  rw [Bool.or_eq_true, ranksFirst_iff, ranksFirst_iff]
  omega

private theorem ranksAbove_of_ranksFirst {left right : Score × Row}
    (leftScore : left.2.stored.score = some left.1)
    (rightScore : right.2.stored.score = some right.1)
    (first : ranksFirst left right = true) (apart : left.2.id ≠ right.2.id) :
    RanksAbove left.2 right.2 := by
  refine ⟨left.1, right.1, leftScore, rightScore, ?_⟩
  rw [← Score.orderKey_lt_iff, ← Score.orderKey_inj]
  rw [ranksFirst_iff] at first
  omega

theorem Ordered.nodup_ranking {store : Store} (ordered : store.Ordered) :
    (store.ranking.map Row.id).Nodup :=
  ((perm_ranking store).map Row.id).nodup_iff.mpr
    (ordered.nodup_ids.sublist (List.filter_sublist.map Row.id))

theorem Ordered.pairwise_ranking {store : Store} (ordered : store.Ordered) :
    store.ranking.Pairwise RanksAbove := by
  have sorted : ((store.rows.filterMap scored).mergeSort ranksFirst).Pairwise
      fun left right => ranksFirst left right = true :=
    List.pairwise_mergeSort @ranksFirst_trans ranksFirst_total _
  have apart := ordered.nodup_ranking
  rw [ranking, List.map_map, List.Nodup, List.pairwise_map] at apart
  rw [ranking, List.pairwise_map]
  refine (sorted.and apart).imp_of_mem ?_
  intro left right leftMember rightMember both
  have scores : ∀ pair ∈ (store.rows.filterMap scored).mergeSort ranksFirst,
      pair.2.stored.score = some pair.1 := by
    intro pair member
    obtain ⟨row, _, made⟩ := List.mem_filterMap.mp (List.mem_mergeSort.mp member)
    obtain ⟨score, rfl⟩ := scored_eq_some_iff.mp made
    exact score
  exact ranksAbove_of_ranksFirst (scores left leftMember) (scores right rightMember) both.1 both.2

/-- After any run, for any limit, the rows that are shown are rows with a score, each at most once
and as many as the limit and the store allow. They are in the order of the ranking, and every other
row with a score ranks below all of them. A lower limit shows the first ones of them. -/
theorem topScored_run_ranked (calls : List Call) (limit : Nat) :
    ((run calls).topScored limit).length = min limit ((run calls).rows.countP hasScore) ∧
    (∀ row ∈ (run calls).topScored limit, row ∈ (run calls).rows ∧ hasScore row = true) ∧
    (((run calls).topScored limit).map Row.id).Nodup ∧
    ((run calls).topScored limit).Pairwise RanksAbove ∧
    (∀ row ∈ (run calls).rows, hasScore row = true → row ∉ (run calls).topScored limit →
      ∀ shown ∈ (run calls).topScored limit, RanksAbove shown row) ∧
    ∀ fewer ≤ limit, (run calls).topScored fewer <+: (run calls).topScored limit := by
  have ordered := ordered_run calls
  have ranked := perm_ranking (run calls)
  have pairwise := ordered.pairwise_ranking
  simp only [topScored_eq_take]
  refine ⟨?_, ?_, ?_, ?_, ?_, ?_⟩
  · rw [List.length_take, ranked.length_eq, List.countP_eq_length_filter]
  · intro row member
    exact List.mem_filter.mp (ranked.mem_iff.mp (List.mem_of_mem_take member))
  · exact ordered.nodup_ranking.sublist ((List.take_sublist _ _).map Row.id)
  · exact pairwise.sublist (List.take_sublist _ _)
  · intro row member score out shown inside
    -- a row with a score that is not among the first ones is among the others
    have whole := List.take_append_drop limit (run calls).ranking
    have ranks : row ∈ (run calls).ranking :=
      ranked.mem_iff.mpr (List.mem_filter.mpr ⟨member, score⟩)
    rw [← whole] at ranks pairwise
    have behind := (List.mem_append.mp ranks).resolve_left out
    exact (List.pairwise_append.mp pairwise).2.2 shown inside row behind
  · intro fewer less
    exact List.take_prefix_take_left less

/-- Two zeros of one sign and one of the other, an infinite score, scores of both signs that are no
numbers, one of them from an update, a row without a score and a deleted row. -/
theorem topScored_run_ranked_zeros :
    let row (score : Option Score) : Call :=
      .create ⟨0, 0⟩ { version := 7, kind := "full", stored := { score } }
    let calls : List Call :=
      [row (some (.ofFloat 0.0)), row none, row (some (.ofFloat (-0.0))), row (some (.ofFloat 0.0)),
       row (some (.ofFloat 1.0)), row (some (.ofFloat 2.0)), row (some ⟨0xFFF8000000000000⟩),
       row (some (.ofFloat (-1.0 / 0.0))), .update 5 { score := some ⟨0x7FF8000000000000⟩ },
       .delete 6]
    ((run calls).topScored 5).map Row.id = [5, 1, 4, 3, 8] ∧
    ∃ left ∈ (run calls).rows, left.id = 7 ∧ hasScore left = true ∧
      left ∉ (run calls).topScored 5 ∧
      ∀ shown ∈ (run calls).topScored 5, RanksAbove shown left := by
  intro row calls
  let entry (id : Nat) (score : Score) : Score × Row :=
    (score, { id, version := 7, kind := "full", stored := { score := some score },
              created := ⟨0, 0⟩ })
  have made : (run calls).rows.filterMap scored =
      [entry 1 (.ofFloat 0.0), entry 3 (.ofFloat (-0.0)), entry 4 (.ofFloat 0.0),
       entry 5 ⟨0x7FF8000000000000⟩, entry 7 ⟨0xFFF8000000000000⟩,
       entry 8 (.ofFloat (-1.0 / 0.0))] := by decide +kernel
  obtain ⟨zero, lower, again, above, below, infinite, scores, ids, facts⟩ :
      ∃ zero lower again above below infinite,
        (run calls).rows.filterMap scored = [zero, lower, again, above, below, infinite] ∧
        (zero.2.id = 1 ∧ lower.2.id = 3 ∧ again.2.id = 4 ∧ above.2.id = 5 ∧ below.2.id = 7 ∧
          infinite.2.id = 8) ∧
        (ranksFirst zero lower = true ∧ ranksFirst zero again = true ∧
          ranksFirst lower again = false) ∧
        (ranksFirst above below = true ∧ ranksFirst above infinite = true ∧
          ranksFirst below infinite = false) ∧
        ranksFirst zero above = false ∧ ranksFirst zero infinite = true ∧
        ranksFirst again infinite = true ∧ ranksFirst lower infinite = true :=
    ⟨_, _, _, _, _, _, made, by decide +kernel⟩
  have shown : (run calls).topScored 5 = [above.2, zero.2, again.2, lower.2, infinite.2] := by
    rw [topScored, scores]
    simp [List.mergeSort, facts]
  have member : below.2 ∈ (run calls).rows.filter hasScore := by
    rw [← map_filterMap_scored, scores]
    simp
  have out : below.2 ∉ (run calls).topScored 5 := by
    intro inside
    have named := List.mem_map_of_mem (f := Row.id) inside
    simp [shown, ids] at named
  obtain ⟨present, score⟩ := List.mem_filter.mp member
  refine ⟨by simp [shown, ids], below.2, present, ids.2.2.2.2.1, score, out, ?_⟩
  exact (topScored_run_ranked calls 5).2.2.2.2.1 below.2 present score out

end SnippetAudit.Store
