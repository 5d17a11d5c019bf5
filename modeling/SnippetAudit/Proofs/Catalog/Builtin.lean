import SnippetAudit.Catalog.Builtin
import SnippetAudit.Finding
import SnippetAudit.Proofs.Catalog.Reading
import SnippetAudit.Proofs.Scan.Phrases

/-!
The built-in catalog as it is read.

All texts of the built-in tables are patterns. Those of the two scans are the texts of phrases, and
each is read as the pattern of its phrase.
-/

set_option autoImplicit false

namespace SnippetAudit.Catalog

open Scan (Phrase)

/-- What the security scan looks for, with the finding that each phrase of a category is. -/
def securityPhrases : List (Finding × List Phrase) :=
  [({ category := "SQL Injection", severity := .high,
      description := "Potential SQL Injection vulnerability detected" },
    [[.word "$_GET[", .gap, .word "]", .gap, .word "mysql_query"],
     [.word "$_POST[", .gap, .word "]", .gap, .word "mysql_query"],
     [.word "$_REQUEST[", .gap, .word "]", .gap, .word "mysql_query"],
     [.word "mysqli_query", .gap, .word "$_"],
     [.word "PDO", .gap, .word "prepare", .gap, .word "$_"]]),
   ({ category := "XSS", severity := .high,
      description := "Potential XSS vulnerability detected" },
    [[.word "echo", .blanks, .word "$_GET"], [.word "echo", .blanks, .word "$_POST"],
     [.word "echo", .blanks, .word "$_REQUEST"],
     [.word "innerHTML", .blanks, .word "=", .gap, .word "$_"],
     [.word "document.write", .gap, .word "$_"]]),
   ({ category := "Path Traversal", severity := .high,
      description := "Potential Path Traversal vulnerability detected" },
    [[.word "include", .gap, .word "$_GET"], [.word "require", .gap, .word "$_GET"],
     [.word "fopen", .gap, .word "$_GET"], [.word "file_get_contents", .gap, .word "$_GET"]]),
   ({ category := "Hardcoded Credentials", severity := .high,
      description := "Potential Hardcoded Credentials vulnerability detected" },
    [[.word "password", .blanks, .word "=", .blanks, .quoted],
     [.word "secret", .blanks, .word "=", .blanks, .quoted],
     [.word "api_key", .blanks, .word "=", .blanks, .quoted],
     [.word "token", .blanks, .word "=", .blanks, .quoted]]),
   ({ category := "Eval Usage", severity := .high,
      description := "Potential Eval Usage vulnerability detected" },
    [[.word "eval", .blanks, .word "("], [.word "assert", .blanks, .word "("],
     [.word "create_function", .blanks, .word "("], [.word "preg_replace", .gap, .word "/e"]])]

/-- What the performance scan looks for, with the finding that each phrase of a category is. -/
def performancePhrases : List (Finding × List Phrase) :=
  [({ category := "Nested Loops", severity := .medium,
      description := "Consider optimizing nested loops" },
    [[.word "for", .gap, .word "\x7b", .gap, .word "for", .gap, .word "\x7b"],
     [.word "while", .gap, .word "\x7b", .gap, .word "while", .gap, .word "\x7b"],
     [.word "for", .gap, .word "\x7b", .gap, .word "while", .gap, .word "\x7b"]]),
   ({ category := "Inefficient String Operations", severity := .medium,
      description := "Consider optimizing inefficient string operations" },
    [[.word "+", .blanks, .word "+", .blanks, .word "+"],
     [.word "str_replace", .gap, .word "/", .gap, .word "/", .gap, .word "/"]]),
   ({ category := "Large Array Operations", severity := .medium,
      description := "Consider optimizing large array operations" },
    [[.word "array_map", .gap, .word "array_map"],
     [.word "array_filter", .gap, .word "array_filter"]]),
   ({ category := "Blocking Operations", severity := .medium,
      description := "Consider optimizing blocking operations" },
    [[.word "sleep("], [.word "usleep("], [.word "file_get_contents", .gap, .word "$"]])]

/-- A row of a table: the name of the category and the texts of its phrases. -/
def row (entry : Finding × List Phrase) : String × List String :=
  (entry.1.category, entry.2.map fun phrase => String.ofList phrase.text)

def category (entry : Finding × List Phrase) : Category where
  name := entry.1.category
  patterns := entry.2.map Phrase.pattern

theorem security_rows : Builtin.security = securityPhrases.map row := by
  decide +kernel

theorem performance_rows : Builtin.performance = performancePhrases.map row := by
  decide +kernel

private theorem toOption_ofText :
    ∀ entry ∈ securityPhrases ++ performancePhrases, ∀ phrase ∈ entry.2,
    (Pattern.ofText phrase.text).toOption = some phrase.pattern := by
  decide +kernel

theorem ofText_text {entry : Finding × List Phrase}
    (member : entry ∈ securityPhrases ++ performancePhrases) {phrase : Phrase}
    (inside : phrase ∈ entry.2) : Pattern.ofText phrase.text = .ok phrase.pattern :=
  eq_ok_of_toOption (toOption_ofText entry member phrase inside)

private theorem readCategory_row {entry : Finding × List Phrase}
    (member : entry ∈ securityPhrases ++ performancePhrases) :
    Pattern.compiler.readCategory (row entry) = .ok (category entry) := by
  have each : ∀ phrase ∈ entry.2, Pattern.compiler.pattern (String.ofList phrase.text) =
      .ok phrase.pattern := by
    intro phrase inside
    change Pattern.ofText (String.ofList phrase.text).toList = _
    rw [String.toList_ofList, ofText_text member inside]
  refine Compiler.readCategory_eq_ok_iff.mpr ⟨⟨entry.2.map Phrase.pattern, ?_⟩, rfl, ?_⟩
  · exact mapM_eq_ok fun phrase inside => Compiler.readPattern_eq_ok_iff.mpr (each phrase inside)
  · exact mapM_eq_ok each

private theorem complexity_isOk :
    (Builtin.complexity.mapM Pattern.compiler.readSignal).isOk = true := by
  decide +kernel

private theorem extraction_isOk :
    (Builtin.extraction.mapM Pattern.compiler.readExtraction).isOk = true := by
  decide +kernel

theorem mapM_readCategory {entries : List (Finding × List Phrase)}
    (known : entries ⊆ securityPhrases ++ performancePhrases) :
    (entries.map row).mapM Pattern.compiler.readCategory = .ok (entries.map category) :=
  mapM_eq_ok fun _ member => readCategory_row (known member)

/-- The built-in tables are read as a whole. -/
theorem compile_builtin : compile Pattern.compiler Builtin.tables = .ok builtin := by
  obtain ⟨complexity, complexityRead⟩ := exists_ok complexity_isOk
  obtain ⟨extraction, extractionRead⟩ := exists_ok extraction_isOk
  have security := mapM_readCategory (List.subset_append_left securityPhrases performancePhrases)
  have performance :=
    mapM_readCategory (List.subset_append_right securityPhrases performancePhrases)
  rw [← security_rows] at security
  rw [← performance_rows] at performance
  obtain ⟨catalog, read⟩ :=
    exists_compile Builtin.tables complexityRead security performance extractionRead
  have same : builtin = catalog := congrArg orNothing read
  rw [read, same]

end SnippetAudit.Catalog
