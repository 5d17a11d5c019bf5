import Mathlib.Algebra.BigOperators.Group.List.Basic
import SnippetAudit.Proofs.Decimal.Halves
import SnippetAudit.Proofs.Metrics.Names
import SnippetAudit.Proofs.Store.Ranking
import SnippetAudit.Proofs.Text.Encoding

/-!
The totals of every kind of row.

The rows are split by their kinds, in the order of the names. The entries are then sorted by their
totals alone, and the sort is stable, so the names still decide between equal totals.
-/

set_option autoImplicit false

namespace SnippetAudit

/-- A stable sort leaves items that it does not tell apart in the order they had. -/
theorem pairwise_mergeSort_of_ties {α : Type} {le : α → α → Bool} {tie : α → α → Prop}
    (trans : ∀ first second third, le first second = true → le second third = true →
      le first third = true)
    (total : ∀ left right, (le left right || le right left) = true) {items : List α}
    (ties : items.Pairwise tie) :
    (items.mergeSort le).Pairwise fun left right =>
      le left right = true ∧ (le right left = true → tie left right) := by
  induction items with
  | nil => simp
  | cons item items ih =>
      obtain ⟨head, tail⟩ := List.pairwise_cons.mp ties
      obtain ⟨before, after, whole, rest, apart⟩ := List.mergeSort_cons trans total item items
      have sorted := List.pairwise_mergeSort trans total (item :: items)
      have others := ih tail
      rw [whole] at sorted ⊢
      rw [rest] at others
      rw [List.pairwise_append, List.pairwise_cons] at sorted ⊢
      rw [List.pairwise_append] at others
      obtain ⟨_, ⟨least, _⟩, lower⟩ := sorted
      obtain ⟨front, back, across⟩ := others
      have members : ∀ other ∈ after, other ∈ items := by
        intro other member
        have inside : other ∈ items.mergeSort le := rest ▸ List.mem_append_right _ member
        exact List.mem_mergeSort.mp inside
      refine ⟨front, ⟨?_, back⟩, ?_⟩
      · intro other member
        exact ⟨least other member, fun _ => head other (members other member)⟩
      · intro left leftMember right rightMember
        cases rightMember with
        | head =>
            have notFirst : le item left = false := by simpa using apart left leftMember
            refine ⟨lower left leftMember item List.mem_cons_self, fun first => ?_⟩
            rw [notFirst] at first
            cases first
        | tail _ rightMember => exact across left leftMember right rightMember

namespace Store

/-- The rows of a kind. -/
def ofKind (store : Store) (kind : String) : List Row :=
  store.rows.filter fun row => row.kind = kind

/-- The totals of every kind, in the order of the kinds. -/
def kindTotals (store : Store) : List KindStatistics :=
  store.kinds.filterMap fun kind => statisticsOf kind (store.ofKind kind)

theorem mem_kinds {store : Store} {kind : String} :
    kind ∈ store.kinds ↔ ∃ row ∈ store.rows, row.kind = kind := by
  rw [kinds, Metrics.mem_distinctNames, List.mem_map]

theorem nodup_kinds (store : Store) : store.kinds.Nodup :=
  (Metrics.pairwise_distinctNames _).imp ne_of_lt

private theorem mem_kinds_iff_ne_nil {store : Store} {kind : String} :
    kind ∈ store.kinds ↔ store.ofKind kind ≠ [] := by
  rw [mem_kinds, ofKind, ne_eq, List.filter_eq_nil_iff]
  simp

/-! Totals of one kind -/

theorem of_statisticsOf_eq_some {kind : String} {rows : List Row} {entry : KindStatistics}
    (made : statisticsOf kind rows = some entry) :
    entry.kind = kind ∧ entry.total = rows.length ∧
      entry.averageScore =
        meanScore (rows.filterMap fun row => row.stored.score.map Score.toFloat) := by
  cases rows with
  | nil => cases made
  | cons row rows =>
      cases made
      exact ⟨rfl, rfl, rfl⟩

private theorem map_filterMap_statisticsOf (store : Store) {kinds : List String}
    (occur : ∀ kind ∈ kinds, store.ofKind kind ≠ []) :
    (kinds.filterMap fun kind => statisticsOf kind (store.ofKind kind)).map
        (fun entry => (entry.kind, entry.total)) =
      kinds.map fun kind => (kind, (store.ofKind kind).length) := by
  induction kinds with
  | nil => rfl
  | cons kind kinds ih =>
      obtain ⟨row, rows, split⟩ := List.exists_cons_of_ne_nil (occur kind List.mem_cons_self)
      have made : (statisticsOf kind (store.ofKind kind)).isSome = true := by
        rw [split]
        rfl
      obtain ⟨entry, made⟩ := Option.isSome_iff_exists.mp made
      obtain ⟨named, total, _⟩ := of_statisticsOf_eq_some made
      have others := ih fun other member => occur other (List.mem_cons_of_mem _ member)
      simp only [List.filterMap_cons, made, List.map_cons, named, total, others]

theorem map_kindTotals (store : Store) :
    store.kindTotals.map (fun entry => (entry.kind, entry.total)) =
      store.kinds.map fun kind => (kind, (store.ofKind kind).length) :=
  map_filterMap_statisticsOf store fun _ => mem_kinds_iff_ne_nil.mp

theorem map_kind_kindTotals (store : Store) :
    store.kindTotals.map KindStatistics.kind = store.kinds := by
  have kinds := congrArg (List.map Prod.fst) (map_kindTotals store)
  simpa [Function.comp_def] using kinds

private theorem map_total_kindTotals (store : Store) :
    store.kindTotals.map KindStatistics.total =
      store.kinds.map fun kind => (store.ofKind kind).length := by
  have totals := congrArg (List.map Prod.snd) (map_kindTotals store)
  simpa [Function.comp_def] using totals

theorem perm_statistics (store : Store) : store.statistics.Perm store.kindTotals :=
  List.mergeSort_perm _ _

/-! All totals -/

private theorem length_ofKind (store : Store) (kind : String) :
    (store.ofKind kind).length = (store.rows.map Row.kind).count kind := by
  rw [ofKind, ← List.countP_eq_length_filter, List.count_eq_countP, List.countP_map]
  rfl

private theorem sum_totals (store : Store) :
    (store.statistics.map KindStatistics.total).sum = store.size := by
  have kinds : store.kinds.Perm (store.rows.map Row.kind).dedup := by
    refine (List.perm_ext_iff_of_nodup (nodup_kinds store) (List.nodup_dedup _)).mpr ?_
    intro kind
    rw [List.mem_dedup]
    exact Metrics.mem_distinctNames
  calc
    (store.statistics.map KindStatistics.total).sum
      = (store.kindTotals.map KindStatistics.total).sum :=
        ((perm_statistics store).map KindStatistics.total).sum_eq
    _ = (store.kinds.map fun kind => (store.ofKind kind).length).sum := by
        rw [map_total_kindTotals]
    _ = ((store.rows.map Row.kind).dedup.map fun kind => (store.ofKind kind).length).sum :=
        (kinds.map _).sum_eq
    _ = store.size := by
        simp only [length_ofKind]
        rw [List.sum_map_count_dedup_eq_length, List.length_map, rows, List.length_map, size]

/-! Averages -/

/-- The sum starts with the first score. -/
theorem meanScore_cons (first : Float) (rest : List Float) :
    meanScore (first :: rest) = rest.foldl (· + ·) first / Float.ofNat (rest.length + 1) := by
  rw [meanScore, List.isEmpty_cons, if_neg Bool.false_ne_true, List.foldl_cons,
    Decimal.negZero_add, List.length_cons]

/-- What an entry says about the rows of its kind. Rows without a score count in the total, but
neither in the sum of the scores nor in its divisor. -/
structure Describes (store : Store) (entry : KindStatistics) : Prop where
  total : entry.total = store.rows.countP fun row => row.kind = entry.kind
  unscored : (∀ row ∈ store.rows, row.kind = entry.kind → hasScore row = false) →
    entry.averageScore = 0.0
  scored : ∀ first rest,
    (store.ofKind entry.kind).filterMap (fun row => row.stored.score.map Score.toFloat) =
      first :: rest →
      entry.averageScore = rest.foldl (· + ·) first /
        Float.ofNat (store.rows.countP fun row => row.kind = entry.kind ∧ hasScore row = true)

private theorem describes_of_mem_statistics {store : Store} {entry : KindStatistics}
    (member : entry ∈ store.statistics) : store.Describes entry := by
  obtain ⟨kind, _, made⟩ := List.mem_filterMap.mp ((perm_statistics store).mem_iff.mp member)
  obtain ⟨rfl, total, average⟩ := of_statisticsOf_eq_some made
  constructor
  case total => rw [total, ofKind, List.countP_eq_length_filter]
  case unscored =>
    intro unscored
    have empty : (store.ofKind entry.kind).filterMap
        (fun row => row.stored.score.map Score.toFloat) = [] := by
      rw [List.filterMap_eq_nil_iff]
      intro row inside
      obtain ⟨present, same⟩ := List.mem_filter.mp inside
      have missing := unscored row present (of_decide_eq_true same)
      rw [hasScore, Option.isSome_eq_false_iff, Option.isNone_iff_eq_none] at missing
      rw [missing, Option.map_none]
    rw [average, empty]
    rfl
  case scored =>
    intro first rest scores
    have divisor : rest.length + 1 =
        store.rows.countP fun row => row.kind = entry.kind ∧ hasScore row = true := by
      rw [← List.length_cons, ← scores, List.length_filterMap_eq_countP, ofKind,
        List.countP_filter]
      congr 1
      funext row
      rw [Bool.decide_and, Bool.and_comm, Bool.decide_eq_true, Option.isSome_map, hasScore]
    rw [average, scores, meanScore_cons, divisor]

/-! Order -/

private theorem pairwise_statistics (store : Store) :
    store.statistics.Pairwise fun left right =>
      right.total < left.total ∨ left.total = right.total ∧
        Text.Utf8.encode left.kind.toList < Text.Utf8.encode right.kind.toList := by
  have named : store.kindTotals.Pairwise fun left right => left.kind < right.kind := by
    rw [← List.pairwise_map (f := KindStatistics.kind), map_kind_kindTotals]
    exact Metrics.pairwise_distinctNames _
  have sorted : store.statistics.Pairwise _ := pairwise_mergeSort_of_ties ?_ ?_ named
  · refine sorted.imp ?_
    intro left right both
    rw [decide_eq_true_eq, decide_eq_true_eq] at both
    obtain ⟨most, tie⟩ := both
    rcases Nat.lt_or_eq_of_le most with less | same
    · exact .inl less
    · have less := String.lt_iff_toList_lt.mp (tie same.ge)
      exact .inr ⟨same.symm, Text.Utf8.encode_lt_encode less⟩
  · intro first second third
    simp only [decide_eq_true_eq]
    exact fun left right => right.trans left
  · intro left right
    simp only [Bool.or_eq_true, decide_eq_true_eq]
    exact Nat.le_total _ _

/-- After any run, there is one entry for each kind that occurs among the rows, and each entry
describes the rows of its kind, which are in the order of their ids. Together the entries count
every row once. The most frequent kinds come first, and the bytes of the names decide between kinds
that are equally frequent. -/
theorem statistics_run_partition (calls : List Call) :
    ((run calls).statistics.map KindStatistics.kind).Nodup ∧
    (∀ kind, kind ∈ (run calls).statistics.map KindStatistics.kind ↔
      ∃ row ∈ (run calls).rows, row.kind = kind) ∧
    (∀ entry ∈ (run calls).statistics, (run calls).Describes entry) ∧
    (run calls).rows.Pairwise (fun left right => left.id < right.id) ∧
    ((run calls).statistics.map KindStatistics.total).sum = (run calls).size ∧
    (run calls).statistics.Pairwise fun left right =>
      right.total < left.total ∨ left.total = right.total ∧
        Text.Utf8.encode left.kind.toList < Text.Utf8.encode right.kind.toList := by
  have named : ((run calls).statistics.map KindStatistics.kind).Perm (run calls).kinds := by
    rw [← map_kind_kindTotals]
    exact (perm_statistics (run calls)).map KindStatistics.kind
  refine ⟨?_, ?_, ?_, ?_, ?_, ?_⟩
  · exact named.nodup_iff.mpr (nodup_kinds (run calls))
  · intro kind
    rw [named.mem_iff, mem_kinds]
  · exact fun entry member => describes_of_mem_statistics member
  · exact (ordered_run calls).ascending_rows
  · exact sum_totals (run calls)
  · exact pairwise_statistics (run calls)

/-- A kind with a row without a score and an updated one, a kind with no score left after a
deletion, and a kind that differs by a blank. -/
theorem statistics_run_partition_blank :
    let row (kind : String) (score : Option Float) : Call :=
      .create ⟨0, 0⟩ { version := 7, kind, stored := { score := score.map .ofFloat } }
    let calls : List Call :=
      [row "b" (some 1.0), row "a" none, row "b " (some 4.0), row "b" none, row "b" (some 2.0),
       row "a" (some 3.0), .delete 6, .update 5 { score := some (.ofFloat 2.5) }]
    (∃ entry ∈ (run calls).statistics, entry.kind = "b" ∧ entry.total = 3 ∧
      entry.averageScore = (1.0 + 2.5) / Float.ofNat 2) ∧
    ∃ entry ∈ (run calls).statistics, entry.kind = "a" ∧ entry.total = 1 ∧
      entry.averageScore = 0.0 := by
  intro row calls
  obtain ⟨_, member, describes, _⟩ := statistics_run_partition calls
  have occurs : ∀ kind, kind ∈ (run calls).rows.map Row.kind →
      ∃ entry ∈ (run calls).statistics, entry.kind = kind := by
    intro kind present
    exact List.mem_map.mp ((member kind).mpr (List.mem_map.mp present))
  constructor
  · obtain ⟨entry, inside, named⟩ := occurs "b" (by decide +kernel)
    have described := describes entry inside
    have total : (run calls).rows.countP (fun row => row.kind = "b") = 3 := by decide +kernel
    have divisor : (run calls).rows.countP
        (fun row => row.kind = "b" ∧ hasScore row = true) = 2 := by decide +kernel
    have scores : ((run calls).ofKind "b").filterMap
        (fun row => row.stored.score.map Score.toFloat) = [1.0, 2.5] := by decide +kernel
    rw [← named] at total divisor scores
    refine ⟨entry, inside, named, described.total.trans total, ?_⟩
    rw [described.scored 1.0 [2.5] scores, divisor]
    rfl
  · obtain ⟨entry, inside, named⟩ := occurs "a" (by decide +kernel)
    have described := describes entry inside
    have total : (run calls).rows.countP (fun row => row.kind = "a") = 1 := by decide +kernel
    have unscored : ∀ row ∈ (run calls).rows, row.kind = "a" → hasScore row = false := by
      decide +kernel
    rw [← named] at total unscored
    exact ⟨entry, inside, named, described.total.trans total, described.unscored unscored⟩

end Store

end SnippetAudit
