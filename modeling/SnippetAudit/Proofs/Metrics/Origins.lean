import SnippetAudit.Proofs.Catalog.Extraction
import SnippetAudit.Proofs.Complexity.Tokens
import SnippetAudit.Proofs.Metrics.Names

/-!
Where names come from.

The names of a kind are what the patterns in the table of the language name. Each of them is a piece
of the text and not empty. A class is named by a whole word, and so is a function, except in the
languages whose patterns let modifiers stand directly in front of the name.
-/

set_option autoImplicit false

namespace SnippetAudit.Metrics

open Catalog (WholeNames wholeNameLanguages)
open Complexity (isAsciiWord isWordChar_eq)
open Text (runsOf)

/-! The tables -/

private theorem mapM_select {texts : NamePatterns String} {patterns : NamePatterns Pattern}
    (read : Pattern.compiler.readNamePatterns texts = .ok patterns) (kind : Kind) :
    (kind.select texts).mapM Pattern.compiler.readPattern = .ok (kind.select patterns) := by
  obtain ⟨functions, functionsRead, read⟩ := bind_eq_ok_iff.mp read
  obtain ⟨classes, classesRead, read⟩ := bind_eq_ok_iff.mp read
  obtain ⟨imports, importsRead, read⟩ := bind_eq_ok_iff.mp read
  cases read
  cases kind with
  | functions => exact functionsRead
  | classes => exact classesRead
  | imports => exact importsRead

/-- Whether a pattern in the table of the language names the label. Only that table is read. -/
def isNamed (kind : Kind) (language label : String) (text : List Char) : Bool :=
  (Catalog.Builtin.extraction.reverse.lookup language).any fun texts =>
    (kind.select texts).any fun source =>
      (Pattern.compiler.readPattern source).toOption.any fun pattern =>
        (pattern.names text).contains label.toList

theorem mem_namesIn_of_isNamed {kind : Kind} {language label : String} {text : List Char}
    (named : isNamed kind language label text = true) :
    label ∈ namesIn .builtin kind language text := by
  obtain ⟨texts, entry, named⟩ := (Option.any_eq_true _ _).mp named
  obtain ⟨source, listed, named⟩ := List.any_eq_true.mp named
  obtain ⟨patterns, known, read⟩ := Catalog.exists_extraction? Catalog.compile_builtin entry
  obtain ⟨pattern, inside, isRead⟩ := exists_mem_of_mapM (mapM_select read kind) listed
  rw [isRead] at named
  exact mem_namesIn.mpr ⟨patterns, known, pattern, inside, label.toList,
    List.contains_iff_mem.mp named, String.ofList_toList⟩

/-- A language without a table has no names. -/
theorem namesIn_of_unlisted {language : String}
    (unlisted : language ∉ Catalog.Builtin.extraction.map Prod.fst) (kind : Kind)
    (text : List Char) : namesIn .builtin kind language text = [] := by
  rw [namesIn, Catalog.extraction?_eq_none Catalog.compile_builtin unlisted]

/-! Words and pieces -/

private theorem runsOf_isWordChar (text : List Char) :
    runsOf isWordChar text = runsOf isAsciiWord text :=
  congrArg (runsOf · text) (funext isWordChar_eq)

private theorem ne_nil_of_mem_runsOf {holds : Char → Bool} {text run : List Char}
    (member : run ∈ runsOf holds text) : run ≠ [] :=
  List.ne_nil_of_mem_splitBy (List.mem_of_mem_filter member)

theorem ofList_ne_empty {label : List Char} (nonempty : label ≠ []) : String.ofList label ≠ "" :=
  fun empty => nonempty (String.ofList_eq_empty_iff.mp empty)

section Names

variable {language label : String} {text : List Char}

private theorem word_of_mem_namesIn {kind : Kind} (whole : WholeNames kind language)
    (named : label ∈ namesIn .builtin kind language text) :
    label ≠ "" ∧ label.toList ∈ runsOf isAsciiWord text := by
  obtain ⟨patterns, known, pattern, member, chars, inside, rfl⟩ := mem_namesIn.mp named
  obtain ⟨rounds, names⟩ := Catalog.namesWord_of_extraction? known whole member
  have run := Pattern.mem_runsOf_of_mem_names rounds names inside
  rw [String.toList_ofList, ← runsOf_isWordChar]
  exact ⟨ofList_ne_empty (ne_nil_of_mem_runsOf run), run⟩

private theorem piece_of_mem_imports (named : label ∈ namesIn .builtin .imports language text) :
    label ≠ "" ∧ label.toList <:+: text := by
  obtain ⟨patterns, known, pattern, member, chars, inside, rfl⟩ := mem_namesIn.mp named
  obtain ⟨rounds, plain⟩ := Catalog.marked_imports_of_extraction? known member
  obtain ⟨part, listed, left, right, rfl, spans⟩ :=
    Pattern.spans_of_mem_names rounds (fun part listed => (plain part listed).2) inside
  have piece : chars <:+: left ++ (chars ++ right) := ⟨left, right, List.append_assoc ..⟩
  rw [String.toList_ofList]
  exact ⟨ofList_ne_empty (spans.ne_nil (plain part listed).1), piece⟩

end Names

/-- Names stand in the text. A class is named by a whole word of it, and so is a function in the
languages that name functions wholly. An import is named by a piece of it. -/
theorem names_stand_in_text (language : String) (text : List Char) :
    (∀ label ∈ namesIn .builtin .classes language text,
        label ≠ "" ∧ label.toList ∈ runsOf isAsciiWord text) ∧
      (language ∈ wholeNameLanguages →
        ∀ label ∈ namesIn .builtin .functions language text,
          label ≠ "" ∧ label.toList ∈ runsOf isAsciiWord text) ∧
      (∀ label ∈ namesIn .builtin .imports language text,
        label ≠ "" ∧ label.toList <:+: text) ∧
      (language ∉ Catalog.Builtin.extraction.map Prod.fst →
        ∀ kind, namesIn .builtin kind language text = []) := by
  refine ⟨?_, ?_, ?_, ?_⟩
  · intro label named
    exact word_of_mem_namesIn (.inl rfl) named
  · intro listed label named
    exact word_of_mem_namesIn (.inr ⟨rfl, listed⟩) named
  · intro label named
    exact piece_of_mem_imports named
  · intro unlisted kind
    exact namesIn_of_unlisted unlisted kind text

def moduleText : List Char :=
  "import os\nclass App:\n  def main(argv):\n".toList

theorem names_stand_in_text_of_module :
    ("App" ∈ namesIn .builtin .classes "python" moduleText ∧
        "App".toList ∈ runsOf isAsciiWord moduleText) ∧
      ("main" ∈ namesIn .builtin .functions "python" moduleText ∧
        "main".toList ∈ runsOf isAsciiWord moduleText) ∧
      ("os" ∈ namesIn .builtin .imports "python" moduleText ∧ "os".toList <:+: moduleText) ∧
      namesIn .builtin .classes "cobol" moduleText = [] := by
  have app : "App" ∈ namesIn .builtin .classes "python" moduleText :=
    mem_namesIn_of_isNamed (by decide +kernel)
  have main : "main" ∈ namesIn .builtin .functions "python" moduleText :=
    mem_namesIn_of_isNamed (by decide +kernel)
  have os : "os" ∈ namesIn .builtin .imports "python" moduleText :=
    mem_namesIn_of_isNamed (by decide +kernel)
  obtain ⟨classes, functions, imports, _⟩ := names_stand_in_text "python" moduleText
  obtain ⟨_, _, _, others⟩ := names_stand_in_text "cobol" moduleText
  exact ⟨⟨app, (classes _ app).2⟩, ⟨main, (functions (by decide) _ main).2⟩,
    ⟨os, (imports _ os).2⟩, others (by decide) .classes⟩

end SnippetAudit.Metrics
