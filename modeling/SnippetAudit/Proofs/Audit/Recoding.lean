import SnippetAudit.Audit
import SnippetAudit.Proofs.Audit.Agreement
import SnippetAudit.Proofs.Catalog.Extraction
import SnippetAudit.Proofs.Metrics.Names
import SnippetAudit.Proofs.Smell.Growth

/-!
With the built-in catalog, characters beyond ASCII are opaque: an audit does not see which ones
they are, except in the names of imports.
-/

set_option autoImplicit false

namespace SnippetAudit

open Text (Recoding isAscii)

/-! Tokens, phrases and keywords -/

theorem Complexity.isOpaque_entries : ∀ entry ∈ entries, entry.1.1.pattern.isOpaque = true := by
  decide +kernel

theorem Scan.isOpaque_phrases : ∀ entry ∈ Catalog.securityPhrases ++ Catalog.performancePhrases,
    ∀ phrase ∈ entry.2, (Phrase.pattern phrase).isOpaque = true := by
  decide +kernel

theorem Catalog.isAscii_keywords : ∀ fingerprint ∈ Catalog.builtin.fingerprints,
    ∀ keyword ∈ fingerprint.keywords, keyword.toList.all isAscii = true := by
  rw [fingerprints_builtin]
  decide +kernel

theorem Agrees.of_recoding (recoding : Recoding) (text : List Char) :
    Agrees text (recoding.onText text) where
  tokens := fun entry member => by
    have proper := Complexity.isProper_entries entry member
    have isOpaque := Complexity.isOpaque_entries entry member
    rw [← Complexity.count_pattern proper, ← Complexity.count_pattern proper, Pattern.count,
      Pattern.count, Pattern.occurrences_onText recoding isOpaque]
  phrases := fun entry member phrase inside => by
    have isOpaque := Scan.isOpaque_phrases entry member phrase inside
    rw [← Scan.occursIn_pattern_iff, ← Scan.occursIn_pattern_iff, Pattern.occursIn,
      Pattern.occursIn, Pattern.candidates_onText recoding isOpaque]
  keywords := fun fingerprint member keyword inside => by
    have ascii := List.all_eq_true.mp (Catalog.isAscii_keywords fingerprint member keyword inside)
    rw [recoding.asciiLower_onText, recoding.countOccurrences_onText ascii]

/-! Names -/

namespace Metrics

private theorem ofList_onText (recoding : Recoding) (label : List Char) :
    String.ofList (recoding.onText label) = recoding.onString (String.ofList label) := by
  rw [Recoding.onString, String.toList_ofList]

/-- The names of a recoded text are the recoded names. -/
theorem namesIn_onText (recoding : Recoding) (kind : Kind) (language : String)
    (text : List Char) :
    namesIn .builtin kind language (recoding.onText text) =
      distinctNames ((namesIn .builtin kind language text).map recoding.onString) := by
  rw [namesIn, namesIn]
  cases known : Catalog.builtin.extraction? language with
  | none => rfl
  | some patterns =>
      have names : ∀ pattern ∈ kind.select patterns,
          (pattern.names (recoding.onText text)).map String.ofList =
            ((pattern.names text).map String.ofList).map recoding.onString := by
        intro pattern member
        rw [Pattern.names_onText recoding (Catalog.isOpaque_of_extraction? known member),
          List.map_map, List.map_map]
        exact List.map_congr_left fun label _ => ofList_onText recoding label
      simp only
      rw [← distinctNames_map, List.map_flatMap, List.flatMap_congr names]

private theorem isAscii_of_isWordChar {c : Char} (word : isWordChar c = true) :
    isAscii c = true := by
  obtain ⟨range, member, held⟩ := Scan.contains_iff.mp word
  have within : CharSet.word.ranges.all (fun range => range.2 < 128) = true := by decide
  have last := of_decide_eq_true (List.all_eq_true.mp within range member)
  exact decide_eq_true (Nat.lt_of_le_of_lt held.2 last)

/-- Functions and classes are named by words, which a recoding leaves as they are. -/
theorem namesIn_onText_eq (recoding : Recoding) {kind : Kind} (notImports : kind ≠ .imports)
    (language : String) (text : List Char) :
    namesIn .builtin kind language (recoding.onText text) =
      namesIn .builtin kind language text := by
  have fixed : ∀ label ∈ namesIn .builtin kind language text, recoding.onString label = label := by
    intro label member
    obtain ⟨patterns, known, pattern, inside, chars, named, rfl⟩ := mem_namesIn.mp member
    have listed : pattern ∈ patterns.functions ++ patterns.classes := by
      cases kind with
      | functions => exact List.mem_append_left _ inside
      | classes => exact List.mem_append_right _ inside
      | imports => exact absurd rfl notImports
    have word := Catalog.isWordChar_of_mem_names known listed named
    rw [← ofList_onText, recoding.onText_eq_self fun c held => isAscii_of_isWordChar (word c held)]
  rw [namesIn_onText, List.map_congr_left fixed, List.map_id', distinctNames_namesIn]

end Metrics

/-! Smells -/

namespace Smell

variable (recoding : Recoding) (text : List Char)

private theorem mostParameters_onText :
    mostParameters (recoding.onText text) = mostParameters text := by
  have step : ∀ (scan : GroupScan) (c : Char), scan.step (recoding.image c) = scan.step c := by
    intro scan c
    simp only [GroupScan.step, recoding.image_eq_iff (by decide : isAscii '(' = true),
      recoding.image_eq_iff (by decide : isAscii ')' = true),
      recoding.image_eq_iff (by decide : isAscii ',' = true)]
  rw [mostParameters, mostParameters, Recoding.onText, List.foldl_map]
  simp only [step]

private theorem count_onText {sign : Char} (ascii : isAscii sign = true) (line : List Char) :
    (recoding.onText line).count sign = line.count sign := by
  rw [Recoding.onText]
  nth_rewrite 1 [← recoding.ascii ascii]
  exact List.count_map_of_injective _ _ recoding.injective _

private theorem deepestNesting_onText :
    deepestNesting (recoding.onText text) = deepestNesting text := by
  have step : ∀ (scan : DepthScan) (line : List Char),
      scan.step (recoding.onText line) = scan.step line := by
    intro scan line
    rw [DepthScan.step, DepthScan.step, depthChange, depthChange,
      count_onText recoding (by decide), count_onText recoding (by decide)]
  rw [deepestNesting, deepestNesting, recoding.lines_onText, List.foldl_map]
  simp only [step]

private theorem repeatsLines_onText : repeatsLines (recoding.onText text) = repeatsLines text := by
  apply Bool.eq_iff_iff.mpr
  rw [repeatsLines, repeatsLines, recoding.solidLines_onText, hasRepeat_iff, hasRepeat_iff,
    List.nodup_map_iff recoding.onText_injective]

private theorem checks_onText (rules : Rules) (language : String) :
    checks .builtin rules language (recoding.onText text) =
      checks .builtin rules language text := by
  have lines : Metrics.lineCount (recoding.onText text) = Metrics.lineCount text := by
    rw [Metrics.lineCount, Metrics.lineCount, recoding.lines_onText, List.length_map]
  rw [checks, checks, lines, Metrics.namesIn_onText_eq recoding (by decide),
    mostParameters_onText, deepestNesting_onText, repeatsLines_onText]

end Smell

namespace Audit

/-- With the built-in catalog, a text and a recoded form of it have the same complexity counts,
findings of all three kinds, language, lines, functions and classes. The imports of the recoded text
are the recoded imports. -/
theorem ofText_recoded (recoding : Recoding) (rules : Rules) (hint text : String) :
    let plain := ofText .builtin rules hint text
    let other := ofText .builtin rules hint (recoding.onString text)
    Complexity.counts .builtin (recoding.onString text).toList =
      Complexity.counts .builtin text.toList ∧
    other.security = plain.security ∧
    other.performance = plain.performance ∧
    other.smells = plain.smells ∧
    other.metrics.detectedLanguage = plain.metrics.detectedLanguage ∧
    other.metrics.lines = plain.metrics.lines ∧
    other.metrics.solidLines = plain.metrics.solidLines ∧
    other.metrics.functions = plain.metrics.functions ∧
    other.metrics.classes = plain.metrics.classes ∧
    other.metrics.imports =
      Metrics.distinctNames (plain.metrics.imports.map recoding.onString) ∧
    ∀ label, label ∈ other.metrics.imports ↔
      ∃ old ∈ plain.metrics.imports, recoding.onString old = label := by
  intro plain other
  have chars : (recoding.onString text).toList = recoding.onText text.toList :=
    String.toList_ofList
  have agrees := Agrees.of_recoding recoding text.toList
  have imports : other.metrics.imports =
      Metrics.distinctNames (plain.metrics.imports.map recoding.onString) := by
    simp only [plain, other, ofText, Metrics.measure, chars]
    exact Metrics.namesIn_onText recoding .imports _ _
  refine ⟨?_, ?_, ?_, ?_, ?_, ?_, ?_, ?_, ?_, imports, ?_⟩
  · rw [chars, agrees.counts_eq]
  · simp only [plain, other, ofText, chars, agrees.security_eq]
  · simp only [plain, other, ofText, chars, agrees.performance_eq]
  · simp only [plain, other, ofText, chars, Smell.findings, Smell.checks_onText]
  · simp only [plain, other, ofText, chars, agrees.language_eq]
  · simp only [plain, other, ofText, Metrics.measure, Metrics.lineCount, chars,
      recoding.lines_onText, List.length_map]
  · simp only [plain, other, ofText, Metrics.measure, chars, recoding.solidLines_onText,
      List.length_map]
  · simp only [plain, other, ofText, Metrics.measure, chars]
    exact Metrics.namesIn_onText_eq recoding (by decide) _ _
  · simp only [plain, other, ofText, Metrics.measure, chars]
    exact Metrics.namesIn_onText_eq recoding (by decide) _ _
  · intro label
    rw [imports, Metrics.mem_distinctNames, List.mem_map]

/-- The two letters have UTF-8 forms of different lengths. -/
theorem ofText_exchanged_letters :
    let letters : Recoding := .exchange '\u00e9' '\u6f22' (by decide) (by decide)
    let plain := ofText .builtin {} "python" "import caf\u00e9"
    let other := ofText .builtin {} "python" "import caf\u6f22"
    other.smells = plain.smells ∧
    ∀ label, label ∈ other.metrics.imports ↔
      ∃ old ∈ plain.metrics.imports, letters.onString old = label := by
  intro letters plain other
  have exchanged : letters.onString "import caf\u00e9" = "import caf\u6f22" := by decide +kernel
  have audits := ofText_recoded letters {} "python" "import caf\u00e9"
  rw [exchanged] at audits
  obtain ⟨_, _, _, smells, _, _, _, _, _, _, imports⟩ := audits
  exact ⟨smells, imports⟩

end Audit

end SnippetAudit
