import SnippetAudit.Proofs.Text.Lines
import SnippetAudit.Smell

/-!
What the smell checks see in a text, they also see in a larger one.

Text before the part in question may leave a parenthesis open. A group of the part may then start
further left than it did before, and it has no fewer segments for it.
-/

set_option autoImplicit false

namespace SnippetAudit.Smell

/-! Parameters -/

theorem GroupScan.step_closed (most : Nat) (c : Char) :
    GroupScan.step ⟨none, most⟩ c = if c = '(' then ⟨some 1, most⟩ else ⟨none, most⟩ := rfl

theorem GroupScan.step_open (segments most : Nat) (c : Char) :
    GroupScan.step ⟨some segments, most⟩ c =
      if c = ')' then ⟨none, max most segments⟩
      else if c = ',' then ⟨some (segments + 1), most⟩
      else ⟨some segments, most⟩ := rfl

/-- The second scan has seen a group as large as any that the first has seen, and the group that is
open in the first is open in the second with no fewer segments. -/
inductive GroupScan.CoveredBy : GroupScan → GroupScan → Prop where
  | closed {most wider : Nat} : most ≤ wider → CoveredBy ⟨none, most⟩ ⟨none, wider⟩
  | openBefore {most wider segments : Nat} :
      most ≤ wider → 1 ≤ segments → CoveredBy ⟨none, most⟩ ⟨some segments, wider⟩
  | opened {most wider segments more : Nat} :
      most ≤ wider → segments ≤ more → CoveredBy ⟨some segments, most⟩ ⟨some more, wider⟩

theorem GroupScan.CoveredBy.most_le {scan wider : GroupScan} (covered : CoveredBy scan wider) :
    scan.most ≤ wider.most := by
  cases covered <;> assumption

theorem GroupScan.CoveredBy.step_right {wider : GroupScan} {most : Nat}
    (covered : CoveredBy ⟨none, most⟩ wider) (c : Char) :
    CoveredBy ⟨none, most⟩ (wider.step c) := by
  cases covered with
  | closed most =>
      rw [step_closed]
      split
      · exact .openBefore most (Nat.le_refl 1)
      · exact .closed most
  | openBefore most segments =>
      rw [step_open]
      split
      · exact .closed (Nat.le_trans most (Nat.le_max_left _ _))
      · split
        · exact .openBefore most (Nat.le_succ_of_le segments)
        · exact .openBefore most segments

theorem GroupScan.CoveredBy.step {scan wider : GroupScan} (covered : CoveredBy scan wider)
    (c : Char) : CoveredBy (scan.step c) (wider.step c) := by
  cases covered with
  | closed most =>
      rw [step_closed, step_closed]
      split
      · exact .opened most (Nat.le_refl 1)
      · exact .closed most
  | openBefore most segments =>
      rw [step_closed]
      by_cases opens : c = '('
      · subst opens
        exact .opened most segments
      · rw [if_neg opens]
        exact step_right (.openBefore most segments) c
  | opened most segments =>
      rw [step_open, step_open]
      split
      · exact .closed (by omega)
      · split
        · exact .opened most (Nat.succ_le_succ segments)
        · exact .opened most segments

theorem GroupScan.CoveredBy.foldl {scan wider : GroupScan} (covered : CoveredBy scan wider)
    (text : List Char) : CoveredBy (text.foldl GroupScan.step scan)
      (text.foldl GroupScan.step wider) := by
  induction text generalizing scan wider with
  | nil => exact covered
  | cons c text ih => exact ih (covered.step c)

/-- Wherever a scan has come to, it covers one that starts anew there. -/
theorem GroupScan.CoveredBy.foldl_right {wider : GroupScan} {most : Nat}
    (covered : CoveredBy ⟨none, most⟩ wider) (text : List Char) :
    CoveredBy ⟨none, most⟩ (text.foldl GroupScan.step wider) := by
  induction text generalizing wider with
  | nil => exact covered
  | cons c text ih => exact ih (covered.step_right c)

theorem GroupScan.most_le_step (scan : GroupScan) (c : Char) : scan.most ≤ (scan.step c).most := by
  obtain ⟨segments, most⟩ := scan
  cases segments with
  | none =>
      rw [step_closed]
      split <;> exact Nat.le_refl most
  | some segments =>
      rw [step_open]
      split
      · exact Nat.le_max_left _ _
      · split <;> exact Nat.le_refl most

theorem GroupScan.most_le_foldl (scan : GroupScan) (text : List Char) :
    scan.most ≤ (text.foldl GroupScan.step scan).most := by
  induction text generalizing scan with
  | nil => exact Nat.le_refl _
  | cons c text ih => exact Nat.le_trans (scan.most_le_step c) (ih (scan.step c))

/-- The most segments of a piece are not more than those of the text. -/
theorem mostParameters_le_of_infix {piece text : List Char} (inside : piece <:+: text) :
    mostParameters piece ≤ mostParameters text := by
  obtain ⟨before, after, rfl⟩ := inside
  rw [mostParameters, mostParameters, List.foldl_append, List.foldl_append]
  have covered : GroupScan.CoveredBy {} (before.foldl GroupScan.step {}) :=
    GroupScan.CoveredBy.foldl_right (.closed (Nat.le_refl 0)) before
  exact Nat.le_trans (covered.foldl piece).most_le (GroupScan.most_le_foldl _ after)

/-! Nesting -/

theorem DepthScan.deepest_le_foldl (scan : DepthScan) (lines : List (List Char)) :
    scan.deepest ≤ (lines.foldl DepthScan.step scan).deepest := by
  induction lines generalizing scan with
  | nil => exact Int.le_refl _
  | cons line lines ih => exact Int.le_trans (Int.le_max_left _ _) (ih (scan.step line))

theorem deepestNesting_le_append (text after : List Char) :
    deepestNesting text ≤ deepestNesting (text ++ '\n' :: after) := by
  rw [deepestNesting, deepestNesting, Text.lines_append_feed, List.foldl_append]
  exact Int.toNat_le_toNat (DepthScan.deepest_le_foldl _ _)

/-! Duplicates -/

theorem hasRepeat_iff {items : List (List Char)} : hasRepeat items = true ↔ ¬ items.Nodup := by
  induction items with
  | nil => simp [hasRepeat]
  | cons item items ih => simp [hasRepeat, ih, Classical.or_iff_not_imp_left]

theorem hasRepeat_of_sublist {items more : List (List Char)} (inside : items.Sublist more)
    (found : hasRepeat items = true) : hasRepeat more = true :=
  hasRepeat_iff.mpr fun distinct => hasRepeat_iff.mp found (distinct.sublist inside)

end SnippetAudit.Smell
