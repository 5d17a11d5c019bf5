import SnippetAudit.Audit
import SnippetAudit.Proofs.Scan.Reference
import SnippetAudit.Proofs.Smell.Growth

/-!
More text around a text hides nothing that is found in it.
-/

set_option autoImplicit false

namespace SnippetAudit

/-! Scans -/

namespace Scan

open Catalog (securityPhrases performancePhrases)

theorem Phrase.OccursIn.mono {phrase : Phrase} {piece text : List Char}
    (occurs : phrase.OccursIn piece) (inside : piece <:+: text) : phrase.OccursIn text := by
  obtain ⟨instanceOf, within, fits⟩ := occurs
  exact ⟨instanceOf, within.trans inside, fits⟩

/-- A category is reported at least as often in the larger text. -/
theorem expected_sublist (entries : List (Finding × List Phrase)) {piece text : List Char}
    (inside : piece <:+: text) : (expected entries piece).Sublist (expected entries text) := by
  induction entries with
  | nil => exact List.Sublist.refl _
  | cons entry entries ih =>
      have more : (entry.2.countP fun phrase => phrase.OccursIn piece) ≤
          entry.2.countP fun phrase => phrase.OccursIn text := by
        apply List.countP_mono_left
        intro phrase _ occurs
        exact decide_eq_true ((of_decide_eq_true occurs).mono inside)
      exact List.Sublist.append ((List.replicate_sublist_replicate _).mpr more) ih

private theorem security_sublist {piece text : List Char} (inside : piece <:+: text) :
    (security .builtin piece).Sublist (security .builtin text) := by
  rw [security_eq_expected, security_eq_expected]
  exact expected_sublist securityPhrases inside

private theorem performance_sublist {piece text : List Char} (inside : piece <:+: text) :
    (performance .builtin piece).Sublist (performance .builtin text) := by
  rw [performance_eq_expected, performance_eq_expected]
  exact expected_sublist performancePhrases inside

end Scan

namespace Audit

/-- A smell of this category is among the findings. -/
def ReportsSmell (audit : Audit) (category : String) : Prop :=
  ∃ found ∈ audit.smells, found.category = category

theorem reportsSmell_iff (catalog : Catalog) (rules : Rules) (hint text category : String) :
    (ofText catalog rules hint text).ReportsSmell category ↔
      ∃ check ∈ Smell.checks catalog rules (Language.ofHint hint) text.toList,
        check.1.category = category ∧ check.2 = true := by
  simp only [ReportsSmell, ofText, Smell.findings, List.mem_filterMap]
  constructor
  · intro reported
    obtain ⟨found, ⟨check, member, shown⟩, named⟩ := reported
    split at shown
    · next holds =>
        cases shown
        exact ⟨check, member, named, holds⟩
    · cases shown
  · intro reported
    obtain ⟨check, member, named, holds⟩ := reported
    exact ⟨check.1, ⟨check, member, by simp [holds]⟩, named⟩

section SmellsOfShape

variable (catalog : Catalog) (rules : Rules) (hint text : String)

private theorem reportsSmell_longMethod :
    (ofText catalog rules hint text).ReportsSmell "Long Method" ↔
      rules.longMethodLines < Metrics.lineCount text.toList := by
  simp [reportsSmell_iff, Smell.checks, Smell.finding]

private theorem reportsSmell_tooManyParameters :
    (ofText catalog rules hint text).ReportsSmell "Too Many Parameters" ↔
      rules.maxParameters < Smell.mostParameters text.toList := by
  simp [reportsSmell_iff, Smell.checks, Smell.finding]

private theorem reportsSmell_deepNesting :
    (ofText catalog rules hint text).ReportsSmell "Deep Nesting" ↔
      rules.maxNestingDepth < Smell.deepestNesting text.toList := by
  simp [reportsSmell_iff, Smell.checks, Smell.finding]

private theorem reportsSmell_duplicateCode :
    (ofText catalog rules hint text).ReportsSmell "Duplicate Code" ↔
      Smell.repeatsLines text.toList = true := by
  simp [reportsSmell_iff, Smell.checks, Smell.finding]

end SmellsOfShape

private theorem lineCount_le_of_surrounded (before text after : List Char) :
    Metrics.lineCount text ≤ Metrics.lineCount (before ++ '\n' :: (text ++ '\n' :: after)) := by
  simp only [Metrics.lineCount, Text.lines_append_feed, List.length_append]
  omega

private theorem repeatsLines_of_surrounded (before after : List Char) {text : List Char}
    (found : Smell.repeatsLines text = true) :
    Smell.repeatsLines (before ++ '\n' :: (text ++ '\n' :: after)) = true := by
  rw [Smell.repeatsLines, Text.solidLines_append_feed, Text.solidLines_append_feed]
  apply Smell.hasRepeat_of_sublist _ found
  exact (List.sublist_append_left _ _).trans (List.sublist_append_right _ _)

/-- With the built-in catalog, each scan of a text reports no more than the scan of the text with
other text around it, in the same order. A text keeps the smells of its length, its parameters and
its duplicates wherever it stands, and that of its nesting if nothing stands before it. -/
theorem ofText_surrounded_keeps_findings (rules : Rules) (hint before text after : String) :
    let inner := ofText .builtin rules hint text
    let outer := ofText .builtin rules hint (before ++ "\n" ++ text ++ "\n" ++ after)
    inner.security.Sublist outer.security ∧
    inner.performance.Sublist outer.performance ∧
    (∀ category ∈ ["Long Method", "Too Many Parameters", "Duplicate Code"],
      inner.ReportsSmell category → outer.ReportsSmell category) ∧
    (inner.ReportsSmell "Deep Nesting" →
      (ofText .builtin rules hint (text ++ "\n" ++ after)).ReportsSmell "Deep Nesting") := by
  intro inner outer
  have chars : (before ++ "\n" ++ text ++ "\n" ++ after).toList =
      before.toList ++ '\n' :: (text.toList ++ '\n' :: after.toList) := by
    simp
  have inside : text.toList <:+: (before ++ "\n" ++ text ++ "\n" ++ after).toList := by
    rw [chars]
    exact ⟨before.toList ++ ['\n'], '\n' :: after.toList, by simp⟩
  have longMethod : inner.ReportsSmell "Long Method" → outer.ReportsSmell "Long Method" := by
    intro reported
    rw [reportsSmell_longMethod] at reported ⊢
    rw [chars]
    exact Nat.lt_of_lt_of_le reported (lineCount_le_of_surrounded ..)
  have tooManyParameters :
      inner.ReportsSmell "Too Many Parameters" → outer.ReportsSmell "Too Many Parameters" := by
    intro reported
    rw [reportsSmell_tooManyParameters] at reported ⊢
    exact Nat.lt_of_lt_of_le reported (Smell.mostParameters_le_of_infix inside)
  have duplicateCode :
      inner.ReportsSmell "Duplicate Code" → outer.ReportsSmell "Duplicate Code" := by
    intro reported
    rw [reportsSmell_duplicateCode] at reported ⊢
    rw [chars]
    exact repeatsLines_of_surrounded _ _ reported
  refine ⟨?_, ?_, ?_, ?_⟩
  · simp only [inner, outer, ofText]
    exact Scan.security_sublist inside
  · simp only [inner, outer, ofText]
    exact Scan.performance_sublist inside
  · simp only [List.forall_mem_cons, List.not_mem_nil, false_implies, implies_true, and_true]
    exact ⟨longMethod, tooManyParameters, duplicateCode⟩
  · intro reported
    have chars : (text ++ "\n" ++ after).toList = text.toList ++ '\n' :: after.toList := by simp
    rw [reportsSmell_deepNesting] at reported ⊢
    rw [chars]
    exact Nat.lt_of_lt_of_le reported (Smell.deepestNesting_le_append ..)

theorem ofText_surrounded_keeps_nested_duplicates :
    let rules : Rules := { maxNestingDepth := 1 }
    let text := "if (ready) \x7b\x7b\nif (ready) \x7b\x7b"
    (ofText .builtin rules "csharp" text).ReportsSmell "Duplicate Code" ∧
    (ofText .builtin rules "csharp" text).ReportsSmell "Deep Nesting" ∧
    (ofText .builtin rules "csharp" ("\x7d\x7d" ++ "\n" ++ text ++ "\n" ++ "done")).ReportsSmell
      "Duplicate Code" ∧
    (ofText .builtin rules "csharp" (text ++ "\n" ++ "done")).ReportsSmell "Deep Nesting" := by
  intro rules text
  have duplicates : (ofText .builtin rules "csharp" text).ReportsSmell "Duplicate Code" :=
    (reportsSmell_duplicateCode ..).mpr (by decide +kernel)
  have nesting : (ofText .builtin rules "csharp" text).ReportsSmell "Deep Nesting" :=
    (reportsSmell_deepNesting ..).mpr (by decide +kernel)
  obtain ⟨_, _, smells, deep⟩ :=
    ofText_surrounded_keeps_findings rules "csharp" "\x7d\x7d" text "done"
  exact ⟨duplicates, nesting, smells _ (by simp) duplicates, deep nesting⟩

end Audit

end SnippetAudit
