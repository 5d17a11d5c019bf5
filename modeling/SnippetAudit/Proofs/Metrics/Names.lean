import Mathlib.Data.List.Sort
import Mathlib.Data.String.Basic
import SnippetAudit.Metrics

/-!
Names in a text.

Distinct names have the members of the list they are made from and are strictly ascending, so they
depend on nothing but these members.
-/

set_option autoImplicit false

namespace SnippetAudit.Metrics

theorem mem_insertName {label other : String} {sorted : List String} :
    other ∈ insertName label sorted ↔ other = label ∨ other ∈ sorted := by
  induction sorted with
  | nil => simp [insertName]
  | cons first rest ih =>
      unfold insertName
      split
      · simp
      · split
        · next same => simp [same]
        · rw [List.mem_cons, List.mem_cons, ih]
          exact or_left_comm

theorem mem_distinctNames {label : String} {labels : List String} :
    label ∈ distinctNames labels ↔ label ∈ labels := by
  have inserted : ∀ sorted,
      label ∈ labels.foldl (fun sorted label => insertName label sorted) sorted ↔
        label ∈ labels ∨ label ∈ sorted := by
    induction labels with
    | nil => simp
    | cons first labels ih =>
        intro sorted
        rw [List.foldl_cons, ih, mem_insertName, List.mem_cons]
        exact or_left_comm.trans or_assoc.symm
  rw [distinctNames, inserted]
  simp

/-- A name in its place keeps the names strictly ascending. -/
theorem pairwise_insertName (label : String) {sorted : List String}
    (ascending : sorted.Pairwise (· < ·)) : (insertName label sorted).Pairwise (· < ·) := by
  induction sorted with
  | nil => exact List.pairwise_singleton _ label
  | cons first rest ih =>
      obtain ⟨least, restAscending⟩ := List.pairwise_cons.mp ascending
      unfold insertName
      split
      · next before =>
          refine List.pairwise_cons.mpr ⟨?_, ascending⟩
          intro other member
          cases member with
          | head => exact before
          | tail _ member => exact before.trans (least other member)
      · next notBefore =>
          split
          · exact ascending
          · next differs =>
              have behind : first < label := lt_of_le_of_ne (not_lt.mp notBefore) (Ne.symm differs)
              refine List.pairwise_cons.mpr ⟨?_, ih restAscending⟩
              intro other member
              rcases mem_insertName.mp member with rfl | member
              · exact behind
              · exact least other member

theorem pairwise_distinctNames (labels : List String) :
    (distinctNames labels).Pairwise (· < ·) := by
  have inserted : ∀ sorted : List String, sorted.Pairwise (· < ·) →
      (labels.foldl (fun sorted label => insertName label sorted) sorted).Pairwise (· < ·) := by
    induction labels with
    | nil => exact fun sorted ascending => ascending
    | cons first labels ih =>
        exact fun sorted ascending => ih _ (pairwise_insertName first ascending)
  exact inserted [] .nil

/-- Lists with the same members have the same distinct names. -/
theorem distinctNames_congr {labels others : List String}
    (same : ∀ label, label ∈ labels ↔ label ∈ others) :
    distinctNames labels = distinctNames others := by
  apply (pairwise_distinctNames labels).eq_of_mem_iff (pairwise_distinctNames others)
  intro label
  rw [mem_distinctNames, mem_distinctNames, same]

/-- It makes no difference whether names are changed before or after they are sorted out. -/
theorem distinctNames_map (change : String → String) (labels : List String) :
    distinctNames (labels.map change) = distinctNames ((distinctNames labels).map change) := by
  apply distinctNames_congr
  intro label
  simp only [List.mem_map, mem_distinctNames]

private theorem distinctNames_idem (labels : List String) :
    distinctNames (distinctNames labels) = distinctNames labels :=
  distinctNames_congr fun _ => mem_distinctNames

theorem distinctNames_namesIn (catalog : Catalog) (kind : Kind) (language : String)
    (text : List Char) :
    distinctNames (namesIn catalog kind language text) = namesIn catalog kind language text := by
  unfold namesIn
  split
  · rfl
  · exact distinctNames_idem _

/-- What the patterns of the language name, and nothing else, is a name in the text. -/
theorem mem_namesIn {catalog : Catalog} {kind : Kind} {language label : String}
    {text : List Char} :
    label ∈ namesIn catalog kind language text ↔
      ∃ patterns, catalog.extraction? language = some patterns ∧
        ∃ pattern ∈ kind.select patterns, ∃ chars ∈ pattern.names text,
          String.ofList chars = label := by
  unfold namesIn
  cases catalog.extraction? language with
  | none => simp
  | some patterns => simp [mem_distinctNames]

end SnippetAudit.Metrics
