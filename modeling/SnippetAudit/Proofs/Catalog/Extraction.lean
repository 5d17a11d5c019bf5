import SnippetAudit.Metrics
import SnippetAudit.Proofs.Catalog.Builtin
import SnippetAudit.Proofs.Pattern.Recoding
import SnippetAudit.Proofs.Pattern.Words

/-!
The extraction patterns of the built-in catalog.

They see no difference between characters beyond ASCII. What the patterns for functions and classes
name is a word. It is a whole word for classes, and also for functions where a keyword or the start
of a line is in front of the name. No import is named by an empty piece.
-/

set_option autoImplicit false

namespace SnippetAudit.Catalog

/-- The patterns of a language were read from one of the entries. -/
theorem exists_mem_of_extraction? {language : String} {patterns : NamePatterns Pattern}
    (known : builtin.extraction? language = some patterns) :
    ∃ read, Builtin.extraction.mapM Pattern.compiler.readExtraction = .ok read ∧
      (language, patterns) ∈ read := by
  obtain ⟨read, extractionRead, inserted⟩ := (compile_eq_ok_iff.mp compile_builtin).2.2.2.1
  rw [extraction?, ← inserted, lookup_foldl_insertEntry, List.lookup_nil, Option.or_none] at known
  exact ⟨read, extractionRead, List.mem_reverse.mp (mem_of_lookup_eq_some known)⟩

/-- One or more word characters. -/
def word : Pattern := .plus true (.one .word)

/-- No pattern tells characters beyond ASCII apart, and functions and classes are named by
words. -/
def namesPlainly (patterns : NamePatterns Pattern) : Bool :=
  (patterns.functions ++ patterns.classes ++ patterns.imports).all Pattern.isOpaque &&
    (patterns.functions ++ patterns.classes).all fun pattern =>
      pattern.roundsTake && pattern.marked = [word]

/-- The languages in which nothing that may be part of a word stands next to the name of a
function. -/
def wholeNameLanguages : List String :=
  ["javascript", "python", "php", "bash"]

/-- Classes are named by whole words, functions as well if the language is one of those, and imports
by pieces that are not empty. -/
def namesWholly (language : String) (patterns : NamePatterns Pattern) : Bool :=
  patterns.classes.all (Pattern.namesWord false) &&
    (!wholeNameLanguages.contains language || patterns.functions.all (Pattern.namesWord false)) &&
    patterns.imports.all fun pattern =>
      pattern.roundsTake && pattern.marked.all fun part => !part.mayBeEmpty && part.marked = []

private theorem names_extraction :
    (Builtin.extraction.mapM Pattern.compiler.readExtraction).toOption.all
      (fun read => read.all fun entry =>
        namesPlainly entry.2 && namesWholly entry.1 entry.2) = true := by
  decide +kernel

private theorem names_of_extraction? {language : String} {patterns : NamePatterns Pattern}
    (known : builtin.extraction? language = some patterns) :
    namesPlainly patterns = true ∧ namesWholly language patterns = true := by
  obtain ⟨read, isRead, member⟩ := exists_mem_of_extraction? known
  have all := names_extraction
  rw [isRead] at all
  exact Bool.and_eq_true_iff.mp (List.all_eq_true.mp all _ member)

theorem isOpaque_of_extraction? {language : String} {patterns : NamePatterns Pattern}
    (known : builtin.extraction? language = some patterns) {kind : Metrics.Kind}
    {pattern : Pattern} (member : pattern ∈ kind.select patterns) : pattern.isOpaque = true := by
  obtain ⟨isOpaque, _⟩ := Bool.and_eq_true_iff.mp (names_of_extraction? known).1
  apply List.all_eq_true.mp isOpaque
  cases kind with
  | functions => exact List.mem_append_left _ (List.mem_append_left _ member)
  | classes => exact List.mem_append_left _ (List.mem_append_right _ member)
  | imports => exact List.mem_append_right _ member

private theorem marked_of_extraction? {language : String} {patterns : NamePatterns Pattern}
    (known : builtin.extraction? language = some patterns) {pattern : Pattern}
    (member : pattern ∈ patterns.functions ++ patterns.classes) :
    pattern.roundsTake = true ∧ pattern.marked = [word] := by
  obtain ⟨_, words⟩ := Bool.and_eq_true_iff.mp (names_of_extraction? known).1
  obtain ⟨rounds, marked⟩ := Bool.and_eq_true_iff.mp (List.all_eq_true.mp words pattern member)
  exact ⟨rounds, of_decide_eq_true marked⟩

/-- Every name of a function or class consists of word characters. -/
theorem isWordChar_of_mem_names {language : String} {patterns : NamePatterns Pattern}
    (known : builtin.extraction? language = some patterns) {pattern : Pattern}
    (member : pattern ∈ patterns.functions ++ patterns.classes) {text label : List Char}
    (named : label ∈ pattern.names text) : ∀ c ∈ label, isWordChar c = true := by
  obtain ⟨rounds, marked⟩ := marked_of_extraction? known member
  have flat : ∀ part ∈ pattern.marked, part.marked = [] := by
    rw [marked]
    intro part inside
    obtain rfl := List.mem_singleton.mp inside
    rfl
  obtain ⟨part, inside, _, _, _, spans⟩ := Pattern.spans_of_mem_names rounds flat named
  rw [marked] at inside
  obtain rfl := List.mem_singleton.mp inside
  exact (Scan.spans_plus_one.mp spans).2

/-- The kinds of names that are whole words. -/
def WholeNames (kind : Metrics.Kind) (language : String) : Prop :=
  kind = .classes ∨ kind = .functions ∧ language ∈ wholeNameLanguages

theorem namesWord_of_extraction? {language : String} {patterns : NamePatterns Pattern}
    (known : builtin.extraction? language = some patterns) {kind : Metrics.Kind}
    (whole : WholeNames kind language) {pattern : Pattern}
    (member : pattern ∈ kind.select patterns) :
    pattern.roundsTake = true ∧ Pattern.namesWord false pattern = true := by
  obtain ⟨names, _⟩ := Bool.and_eq_true_iff.mp (names_of_extraction? known).2
  obtain ⟨classes, functions⟩ := Bool.and_eq_true_iff.mp names
  cases whole with
  | inl isClass =>
      subst isClass
      exact ⟨(marked_of_extraction? known (List.mem_append_right _ member)).1,
        List.all_eq_true.mp classes pattern member⟩
  | inr isFunction =>
      obtain ⟨rfl, listed⟩ := isFunction
      rw [List.contains_iff_mem.mpr listed, Bool.not_true, Bool.false_or] at functions
      exact ⟨(marked_of_extraction? known (List.mem_append_left _ member)).1,
        List.all_eq_true.mp functions pattern member⟩

theorem marked_imports_of_extraction? {language : String} {patterns : NamePatterns Pattern}
    (known : builtin.extraction? language = some patterns) {pattern : Pattern}
    (member : pattern ∈ patterns.imports) :
    pattern.roundsTake = true ∧
      ∀ part ∈ pattern.marked, part.mayBeEmpty = false ∧ part.marked = [] := by
  obtain ⟨_, imports⟩ := Bool.and_eq_true_iff.mp (names_of_extraction? known).2
  obtain ⟨rounds, parts⟩ := Bool.and_eq_true_iff.mp (List.all_eq_true.mp imports pattern member)
  refine ⟨rounds, ?_⟩
  intro part inside
  obtain ⟨taking, flat⟩ := Bool.and_eq_true_iff.mp (List.all_eq_true.mp parts part inside)
  exact ⟨by simpa using taking, of_decide_eq_true flat⟩

end SnippetAudit.Catalog
