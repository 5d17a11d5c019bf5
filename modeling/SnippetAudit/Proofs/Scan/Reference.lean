import SnippetAudit.Proofs.Catalog.Builtin
import SnippetAudit.Scan

/-!
The findings of the two scans, said in plain terms.

With the built-in catalog a scan reports a category as often as phrases of the category occur, in
the order of the table.
-/

set_option autoImplicit false

namespace SnippetAudit.Scan

open Catalog (securityPhrases performancePhrases row category)

private theorem security_builtin : Catalog.builtin.security = securityPhrases.map category := by
  have read := (Catalog.compile_eq_ok_iff.mp Catalog.compile_builtin).2.1
  have rows := Catalog.mapM_readCategory
    (List.subset_append_left securityPhrases performancePhrases)
  rw [← Catalog.security_rows] at rows
  exact Except.ok.inj (read.symm.trans rows)

private theorem performance_builtin :
    Catalog.builtin.performance = performancePhrases.map category := by
  have read := (Catalog.compile_eq_ok_iff.mp Catalog.compile_builtin).2.2.1
  have rows := Catalog.mapM_readCategory
    (List.subset_append_right securityPhrases performancePhrases)
  rw [← Catalog.performance_rows] at rows
  exact Except.ok.inj (read.symm.trans rows)

/-- The findings that a table of phrases asks for: one for each phrase that occurs. -/
def expected (entries : List (Finding × List Phrase)) (text : List Char) : List Finding :=
  entries.flatMap fun entry =>
    List.replicate (entry.2.countP fun phrase => phrase.OccursIn text) entry.1

private theorem hits_category (entry : Finding × List Phrase) (text : List Char) :
    hits (category entry) text = entry.2.countP fun phrase => phrase.OccursIn text := by
  rw [hits, category, List.countP_map]
  apply List.countP_congr
  intro phrase _
  rw [decide_eq_true_eq]
  exact occursIn_pattern_iff

private theorem findings_category {entries : List (Finding × List Phrase)}
    {finding : String → Finding}
    (same : ∀ entry ∈ entries, finding entry.1.category = entry.1) (text : List Char) :
    findings (entries.map category) finding text = expected entries text := by
  rw [findings, expected, List.flatMap_map]
  apply List.flatMap_congr
  intro entry member
  rw [hits_category, category, same entry member]

theorem security_eq_expected (text : List Char) :
    security .builtin text = expected securityPhrases text := by
  rw [security, security_builtin]
  exact findings_category (by decide +kernel) text

theorem performance_eq_expected (text : List Char) :
    performance .builtin text = expected performancePhrases text := by
  rw [performance, performance_builtin]
  exact findings_category (by decide +kernel) text

/-- The pattern that is read from the text of the phrase is found in the text. -/
def Phrase.Reported (phrase : Phrase) (text : List Char) : Prop :=
  ∃ pattern, Pattern.ofText phrase.text = .ok pattern ∧ pattern.occursIn text = true

private theorem reported_iff {entry : Finding × List Phrase}
    (member : entry ∈ securityPhrases ++ performancePhrases) {phrase : Phrase}
    (inside : phrase ∈ entry.2) {text : List Char} :
    phrase.Reported text ↔ phrase.OccursIn text := by
  have read := Catalog.ofText_text member inside
  constructor
  · intro reported
    obtain ⟨pattern, other, occurs⟩ := reported
    rw [read] at other
    cases other
    exact occursIn_pattern_iff.mp occurs
  · intro occurs
    exact ⟨phrase.pattern, read, occursIn_pattern_iff.mpr occurs⟩

/-- The phrases without white space or quotes are words with gaps between them. -/
theorem plain_phrases : ∀ entry ∈ securityPhrases ++ performancePhrases, ∀ phrase ∈ entry.2,
    phrase.IsPlain → phrase = spaced phrase.words ∧ phrase.words ≠ [] ∧
      ∀ word ∈ phrase.words, '\n' ∉ word.toList := by
  decide +kernel

/-- With the built-in catalog, each scan reports the finding of every category of its table, in
order, as often as phrases of the category occur in the text. The texts of these phrases are the
patterns of the tables. A phrase with no gap of white space and no quotes is reported exactly if one
line holds its words in order. -/
theorem findings_eq_expected (text : List Char) :
    security .builtin text = expected securityPhrases text ∧
    performance .builtin text = expected performancePhrases text ∧
    Catalog.Builtin.security = securityPhrases.map row ∧
    Catalog.Builtin.performance = performancePhrases.map row ∧
    ∀ entry ∈ securityPhrases ++ performancePhrases, ∀ phrase ∈ entry.2, phrase.IsPlain →
      (phrase.Reported text ↔ ∃ line ∈ Text.lines text, InOrder phrase.words line) := by
  refine ⟨security_eq_expected text, performance_eq_expected text, Catalog.security_rows,
    Catalog.performance_rows, ?_⟩
  intro entry member phrase inside plain
  obtain ⟨gaps, nonempty, noFeed⟩ := plain_phrases entry member phrase inside plain
  rw [reported_iff member inside]
  exact occursIn_spaced_iff plain gaps nonempty noFeed

/-- The first line holds one loop; in the second a brace too many stands between two loops, and all
that is found is that they are nested. -/
theorem nested_loops_reported :
    Phrase.Reported [.word "for", .gap, .word "\x7b", .gap, .word "for", .gap, .word "\x7b"]
        "for\x7b\n+for(;;)\x7b\x7bfor\x7b".toList ∧
      security .builtin "for\x7b\n+for(;;)\x7b\x7bfor\x7b".toList = [] ∧
      performance .builtin "for\x7b\n+for(;;)\x7b\x7bfor\x7b".toList =
        [{ category := "Nested Loops", severity := .medium,
           description := "Consider optimizing nested loops" }] := by
  have split : "+for(;;)\x7b\x7bfor\x7b".toList =
      "+".toList ++ ("for".toList ++ ("(;;)".toList ++ ("\x7b".toList ++ ("\x7b".toList ++
        ("for".toList ++ ([] ++ ("\x7b".toList ++ []))))))) := by
    decide +kernel
  have held : InOrder ["for", "\x7b", "for", "\x7b"] "+for(;;)\x7b\x7bfor\x7b".toList :=
    split ▸ .cons (.cons (.cons (.cons .nil)))
  have member : "+for(;;)\x7b\x7bfor\x7b".toList ∈
      Text.lines "for\x7b\n+for(;;)\x7b\x7bfor\x7b".toList := by
    decide +kernel
  obtain ⟨security, performance, _, _, plain⟩ :=
    findings_eq_expected "for\x7b\n+for(;;)\x7b\x7bfor\x7b".toList
  have reported := plain _ (List.mem_append_right securityPhrases List.mem_cons_self) _
    List.mem_cons_self (by decide)
  refine ⟨reported.mpr ⟨_, member, held⟩, ?_, ?_⟩
  · rw [security]
    decide +kernel
  · rw [performance]
    decide +kernel

end SnippetAudit.Scan
