import SnippetAudit.Catalog.Basic
import SnippetAudit.Proofs.Entries
import SnippetAudit.Proofs.Results

/-!
Catalogs as they are read from tables: what each part of a catalog is read from.
-/

set_option autoImplicit false

namespace SnippetAudit

variable {α β φ : Type} {compiler : Compiler α β φ}

namespace Compiler

theorem readPattern_eq_ok_iff {text : String} {pattern : α} :
    compiler.readPattern text = .ok pattern ↔ compiler.pattern text = .ok pattern := by
  unfold readPattern
  cases compiler.pattern text <;> simp [Except.mapError]

theorem readPattern_eq_error_iff {text : String} {bad : BadPattern φ} :
    compiler.readPattern text = .error bad ↔
      bad.text = text ∧ compiler.pattern bad.text = .error bad.fault := by
  obtain ⟨badText, fault⟩ := bad
  unfold readPattern
  constructor
  · intro failed
    cases read : compiler.pattern text with
    | ok pattern => simp [read, Except.mapError] at failed
    | error reason =>
        rw [read] at failed
        cases failed
        exact ⟨rfl, read⟩
  · rintro ⟨rfl, failed⟩
    rw [failed]
    rfl

/-- A category is read if each of its texts is and the group of them is as well. -/
theorem readCategory_eq_ok_iff {entry : String × List String} {category : Category β} :
    compiler.readCategory entry = .ok category ↔
      (∃ patterns, entry.2.mapM compiler.readPattern = .ok patterns) ∧
        category.name = entry.1 ∧ compiler.group entry.2 = .ok category.patterns := by
  obtain ⟨name, patterns⟩ := category
  simp only [readCategory, bind_eq_ok_iff]
  cases compiler.group entry.2 with
  | error fault => simp [Except.mapError]
  | ok group => simp [Except.mapError, pure, Except.pure, eq_comm]

theorem readExtraction_eq_ok_iff {entry : String × NamePatterns String}
    {result : String × NamePatterns α} :
    compiler.readExtraction entry = .ok result ↔
      entry.1 = result.1 ∧ compiler.readNamePatterns entry.2 = .ok result.2 := by
  obtain ⟨language, patterns⟩ := result
  rw [readExtraction]
  cases compiler.readNamePatterns entry.2 with
  | error fault => simp [Except.map]
  | ok patterns => simp [Except.map]

end Compiler

namespace Catalog

/-- The parts of a catalog and the tables that they are read from. -/
theorem compile_eq_ok_iff {tables : Tables} {catalog : Catalog α β} :
    compile compiler tables = .ok catalog ↔
      tables.complexity.mapM compiler.readSignal = .ok catalog.complexity ∧
      tables.security.mapM compiler.readCategory = .ok catalog.security ∧
      tables.performance.mapM compiler.readCategory = .ok catalog.performance ∧
      (∃ extraction, tables.extraction.mapM compiler.readExtraction = .ok extraction ∧
        extraction.foldl (fun entries (key, value) => insertEntry key value entries) [] =
          catalog.extraction) ∧
      tables.fingerprints.map readFingerprint = catalog.fingerprints := by
  simp only [compile, bind_eq_ok_iff]
  constructor
  · intro read
    obtain ⟨_, complexity, _, security, _, performance, entries, extraction, same⟩ := read
    cases same
    exact ⟨complexity, security, performance, ⟨entries, extraction, rfl⟩, rfl⟩
  · intro read
    obtain ⟨complexity, security, performance, ⟨entries, extraction, inserted⟩, prints⟩ := read
    refine ⟨_, complexity, _, security, _, performance, entries, extraction, ?_⟩
    rw [inserted, prints]
    rfl

theorem exists_compile (tables : Tables) {complexity : List (Signal α)}
    {security performance : List (Category β)} {extraction : List (String × NamePatterns α)}
    (complexityRead : tables.complexity.mapM compiler.readSignal = .ok complexity)
    (securityRead : tables.security.mapM compiler.readCategory = .ok security)
    (performanceRead : tables.performance.mapM compiler.readCategory = .ok performance)
    (extractionRead : tables.extraction.mapM compiler.readExtraction = .ok extraction) :
    ∃ catalog, compile compiler tables = .ok catalog := by
  let catalog : Catalog α β :=
    { complexity, security, performance,
      extraction := extraction.foldl (fun entries (key, value) => insertEntry key value entries) [],
      fingerprints := tables.fingerprints.map readFingerprint }
  exact ⟨catalog, compile_eq_ok_iff.mpr
    ⟨complexityRead, securityRead, performanceRead, ⟨extraction, extractionRead, rfl⟩, rfl⟩⟩

/-! Extraction patterns -/

private theorem lookup_rel_of_forall₂ {entries : List (String × NamePatterns String)}
    {results : List (String × NamePatterns α)}
    (pairs : List.Forall₂ (fun entry result => compiler.readExtraction entry = .ok result)
      entries results) (language : String) :
    Option.Rel (fun texts patterns => compiler.readNamePatterns texts = .ok patterns)
      (entries.lookup language) (results.lookup language) := by
  induction pairs with
  | nil => exact .none
  | cons entryRead _ ih =>
      obtain ⟨same, texts⟩ := Compiler.readExtraction_eq_ok_iff.mp entryRead
      rw [lookup_cons_eq_ite, lookup_cons_eq_ite, same]
      split
      · exact .some texts
      · exact ih

/-- The patterns of a language are read from the last entry that the tables have for it. -/
theorem extraction?_rel {tables : Tables} {catalog : Catalog α β}
    (isRead : compile compiler tables = .ok catalog) (language : String) :
    Option.Rel (fun texts patterns => compiler.readNamePatterns texts = .ok patterns)
      (tables.extraction.reverse.lookup language) (catalog.extraction? language) := by
  obtain ⟨read, extractionRead, inserted⟩ := (compile_eq_ok_iff.mp isRead).2.2.2.1
  rw [extraction?, ← inserted, lookup_foldl_insertEntry, List.lookup_nil, Option.or_none]
  exact lookup_rel_of_forall₂ (List.forall₂_reverse_iff.mpr (forall₂_of_mapM extractionRead)) _

theorem exists_extraction? {tables : Tables} {catalog : Catalog α β}
    (isRead : compile compiler tables = .ok catalog) {language : String}
    {texts : NamePatterns String}
    (entry : tables.extraction.reverse.lookup language = some texts) :
    ∃ patterns, catalog.extraction? language = some patterns ∧
      compiler.readNamePatterns texts = .ok patterns := by
  have related := extraction?_rel isRead language
  rw [entry] at related
  cases known : catalog.extraction? language with
  | none =>
      rw [known] at related
      cases related
  | some patterns =>
      rw [known] at related
      cases related with
      | some read => exact ⟨patterns, rfl, read⟩

theorem extraction?_eq_none {tables : Tables} {catalog : Catalog α β}
    (isRead : compile compiler tables = .ok catalog) {language : String}
    (unlisted : language ∉ tables.extraction.map Prod.fst) :
    catalog.extraction? language = none := by
  have related := extraction?_rel isRead language
  have missing : tables.extraction.reverse.lookup language = none := by
    rwa [lookup_eq_none_iff_notMem, List.map_reverse, List.mem_reverse]
  rw [missing] at related
  cases known : catalog.extraction? language with
  | none => rfl
  | some patterns =>
      rw [known] at related
      cases related

end Catalog

end SnippetAudit
