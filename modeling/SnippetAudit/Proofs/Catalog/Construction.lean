import SnippetAudit.Proofs.Catalog.Reading
import SnippetAudit.Proofs.Metrics.Names
import SnippetAudit.Proofs.Text.Encoding

/-!
Catalogs and the order in which their tables are read.

However the texts of the tables are grouped, they are read one after another in one order, and the
first that is no pattern ends the reading. If all are patterns there is a catalog, and each part of
it stands in the place of what it was read from.
-/

set_option autoImplicit false

namespace SnippetAudit

/-- All pattern texts, in the order in which they are read. -/
def Tables.patternTexts (tables : Tables) : List String :=
  tables.complexity.map Prod.fst ++ (tables.security.flatMap Prod.snd ++
    (tables.performance.flatMap Prod.snd ++
      tables.extraction.flatMap fun entry =>
        entry.2.functions ++ (entry.2.classes ++ entry.2.imports)))

namespace Catalog

variable {α β φ : Type}

/-! The first fault -/

/-- What ended the reading, if something did. -/
def fault? {γ : Type} : Except (BadPattern φ) γ → Option (BadPattern φ)
  | .ok _ => none
  | .error bad => some bad

/-- The first text that is no pattern. -/
def firstFault? (compiler : Compiler α β φ) (texts : List String) : Option (BadPattern φ) :=
  texts.findSome? fun text => fault? (compiler.readPattern text)

theorem fault?_eq_some_iff {γ : Type} {read : Except (BadPattern φ) γ} {bad : BadPattern φ} :
    fault? read = some bad ↔ read = .error bad := by
  cases read <;> simp [fault?]

theorem fault?_eq_none_iff {γ : Type} {read : Except (BadPattern φ) γ} :
    fault? read = none ↔ ∃ value, read = .ok value := by
  cases read <;> simp [fault?]

section Order

variable {compiler : Compiler α β φ}

private theorem firstFault?_eq_none_iff {texts : List String} :
    firstFault? compiler texts = none ↔
      ∀ text ∈ texts, ∃ pattern, compiler.pattern text = .ok pattern := by
  simp only [firstFault?, List.findSome?_eq_none_iff, fault?_eq_none_iff,
    Compiler.readPattern_eq_ok_iff]

private theorem firstFault?_eq_some_iff {texts : List String} {bad : BadPattern φ} :
    firstFault? compiler texts = some bad ↔
      ∃ before after, texts = before ++ bad.text :: after ∧
        (∀ text ∈ before, ∃ pattern, compiler.pattern text = .ok pattern) ∧
        compiler.pattern bad.text = .error bad.fault := by
  simp only [firstFault?, List.findSome?_eq_some_iff, fault?_eq_none_iff, fault?_eq_some_iff,
    Compiler.readPattern_eq_ok_iff, Compiler.readPattern_eq_error_iff]
  constructor
  · rintro ⟨before, text, after, split, ⟨rfl, failed⟩, fine⟩
    exact ⟨before, after, split, fine, failed⟩
  · rintro ⟨before, after, split, fine, failed⟩
    exact ⟨before, bad.text, after, split, ⟨rfl, failed⟩, fine⟩

/-- The reading ends as it would if the texts were read one after another. -/
def EndsAs (compiler : Compiler α β φ) (texts : List String) {γ : Type}
    (read : Except (BadPattern φ) γ) : Prop :=
  fault? read = firstFault? compiler texts

private theorem endsAs_readPattern (text : String) :
    EndsAs compiler [text] (compiler.readPattern text) := by
  rw [EndsAs, firstFault?, List.findSome?_singleton]

theorem EndsAs.bind {γ δ : Type} {first second : List String} {read : Except (BadPattern φ) γ}
    {next : γ → Except (BadPattern φ) δ} (start : EndsAs compiler first read)
    (rest : ∀ value, read = .ok value → EndsAs compiler second (next value)) :
    EndsAs compiler (first ++ second) (read >>= next) := by
  unfold EndsAs firstFault? at *
  rw [List.findSome?_append, ← start]
  cases read with
  | error bad => rfl
  | ok value => exact rest value rfl

theorem EndsAs.map {γ δ : Type} {texts : List String} {read : Except (BadPattern φ) γ}
    (ends : EndsAs compiler texts read) (change : γ → δ) :
    EndsAs compiler texts (read.map change) := by
  unfold EndsAs at *
  rw [← ends]
  cases read <;> rfl

/-- What cannot fail any more does not change the end. -/
theorem EndsAs.then_ok {γ δ : Type} {texts : List String} {read : Except (BadPattern φ) γ}
    {next : γ → Except (BadPattern φ) δ} (ends : EndsAs compiler texts read)
    (rest : ∀ value, read = .ok value → ∃ result, next value = .ok result) :
    EndsAs compiler texts (read >>= next) := by
  have whole : EndsAs compiler (texts ++ []) (read >>= next) := by
    refine ends.bind fun value isRead => ?_
    obtain ⟨result, nextRead⟩ := rest value isRead
    rw [nextRead]
    rfl
  rwa [List.append_nil] at whole

/-- If each entry is read as its texts are, all entries are read as all texts are. -/
theorem EndsAs.mapM {γ δ : Type} {texts : γ → List String} {read : γ → Except (BadPattern φ) δ}
    (each : ∀ entry, EndsAs compiler (texts entry) (read entry)) (entries : List γ) :
    EndsAs compiler (entries.flatMap texts) (entries.mapM read) := by
  induction entries with
  | nil => rfl
  | cons entry entries ih =>
      rw [List.flatMap_cons, List.mapM_cons]
      exact (each entry).bind fun _ _ => ih.then_ok fun _ _ => ⟨_, rfl⟩

private theorem endsAs_mapM_readPattern (texts : List String) :
    EndsAs compiler texts (texts.mapM compiler.readPattern) := by
  have ends := EndsAs.mapM (@endsAs_readPattern _ _ _ compiler) texts
  rwa [List.flatMap_singleton'] at ends

private theorem endsAs_readSignal (entry : String × Float) :
    EndsAs compiler [entry.1] (compiler.readSignal entry) :=
  (endsAs_readPattern entry.1).map _

private theorem endsAs_readExtraction (entry : String × NamePatterns String) :
    EndsAs compiler (entry.2.functions ++ (entry.2.classes ++ entry.2.imports))
      (compiler.readExtraction entry) := by
  refine EndsAs.map ?_ _
  exact (endsAs_mapM_readPattern _).bind fun _ _ => (endsAs_mapM_readPattern _).bind fun _ _ =>
    (endsAs_mapM_readPattern _).then_ok fun _ _ => ⟨_, rfl⟩

end Order

/-- Whatever is a pattern alone is one in a group: several texts can be read together if each of
them can be read. -/
def Groups (compiler : Compiler α β φ) : Prop :=
  ∀ texts : List String, (∀ text ∈ texts, ∃ pattern, compiler.pattern text = .ok pattern) →
    ∃ group, compiler.group texts = .ok group

section Parts

variable {compiler : Compiler α β φ}

/-- A category is read as its texts are: the group does not fail where they do not. -/
theorem endsAs_readCategory (groups : Groups compiler) (entry : String × List String) :
    EndsAs compiler entry.2 (compiler.readCategory entry) := by
  refine (endsAs_mapM_readPattern entry.2).then_ok fun patterns isRead => ?_
  have each : ∀ text ∈ entry.2, ∃ pattern, compiler.pattern text = .ok pattern := by
    intro text member
    obtain ⟨pattern, _, read⟩ := exists_mem_of_mapM isRead member
    exact ⟨pattern, Compiler.readPattern_eq_ok_iff.mp read⟩
  obtain ⟨group, together⟩ := groups entry.2 each
  rw [together]
  exact ⟨_, rfl⟩

/-- The tables are read in the order of their texts. -/
theorem endsAs_compile (groups : Groups compiler) (tables : Tables) :
    EndsAs compiler tables.patternTexts (compile compiler tables) := by
  have categories := EndsAs.mapM (endsAs_readCategory groups)
  rw [Tables.patternTexts, List.map_eq_flatMap]
  exact (EndsAs.mapM endsAs_readSignal _).bind fun _ _ =>
    (categories _).bind fun _ _ => (categories _).bind fun _ _ =>
    (EndsAs.mapM endsAs_readExtraction _).then_ok fun _ _ => ⟨_, rfl⟩

/-! The parts of a catalog -/

private theorem forall₂_mapM_readPattern {texts : List String} {patterns : List α}
    (read : texts.mapM compiler.readPattern = .ok patterns) :
    List.Forall₂ (fun text pattern => compiler.pattern text = .ok pattern) texts patterns :=
  (forall₂_of_mapM read).imp fun _ _ => Compiler.readPattern_eq_ok_iff.mp

variable (compiler)

structure SignalOf (entry : String × Float) (signal : Signal α) : Prop where
  text : signal.text = entry.1
  weight : signal.weight = entry.2
  pattern : compiler.pattern entry.1 = .ok signal.pattern

structure CategoryOf (entry : String × List String) (category : Category β) : Prop where
  name : category.name = entry.1
  patterns : compiler.group entry.2 = .ok category.patterns

structure NamePatternsOf (texts : NamePatterns String) (patterns : NamePatterns α) : Prop where
  functions : List.Forall₂ (fun text pattern => compiler.pattern text = .ok pattern)
    texts.functions patterns.functions
  classes : List.Forall₂ (fun text pattern => compiler.pattern text = .ok pattern)
    texts.classes patterns.classes
  imports : List.Forall₂ (fun text pattern => compiler.pattern text = .ok pattern)
    texts.imports patterns.imports

structure FingerprintOf (entry : String × List String) (fingerprint : Fingerprint) : Prop where
  language : fingerprint.language = entry.1
  keywords : fingerprint.keywords =
    entry.2.map fun keyword => String.ofList (Text.asciiLower keyword.toList)

variable {compiler}

private theorem signalOf_of_read {entry : String × Float} {signal : Signal α}
    (read : compiler.readSignal entry = .ok signal) : SignalOf compiler entry signal := by
  obtain ⟨pattern, patternRead, rfl⟩ := map_eq_ok_iff.mp read
  exact ⟨rfl, rfl, Compiler.readPattern_eq_ok_iff.mp patternRead⟩

private theorem categoryOf_of_read {entry : String × List String} {category : Category β}
    (read : compiler.readCategory entry = .ok category) : CategoryOf compiler entry category := by
  obtain ⟨_, name, patterns⟩ := Compiler.readCategory_eq_ok_iff.mp read
  exact ⟨name, patterns⟩

private theorem namePatternsOf_of_read {texts : NamePatterns String} {patterns : NamePatterns α}
    (read : compiler.readNamePatterns texts = .ok patterns) :
    NamePatternsOf compiler texts patterns := by
  simp only [Compiler.readNamePatterns, bind_eq_ok_iff] at read
  obtain ⟨_, functions, _, classes, _, imports, same⟩ := read
  cases same
  exact ⟨forall₂_mapM_readPattern functions, forall₂_mapM_readPattern classes,
    forall₂_mapM_readPattern imports⟩

/-! Languages -/

private theorem map_fst_insertEntry {γ : Type} (key : String) (value : γ)
    (entries : List (String × γ)) :
    (insertEntry key value entries).map Prod.fst =
      Metrics.insertName key (entries.map Prod.fst) := by
  induction entries with
  | nil => rfl
  | cons entry entries ih =>
      rw [List.map_cons, insertEntry, Metrics.insertName]
      split
      · rfl
      · split
        · next same => rw [List.map_cons, same]
        · rw [List.map_cons, ih]

/-- The languages are the distinct keys of the entries. -/
theorem map_fst_foldl_insertEntry {γ : Type} (items : List (String × γ)) :
    (items.foldl (fun entries item => insertEntry item.1 item.2 entries) []).map Prod.fst =
      Metrics.distinctNames (items.map Prod.fst) := by
  have fromEntries : ∀ entries : List (String × γ),
      (items.foldl (fun entries item => insertEntry item.1 item.2 entries) entries).map Prod.fst =
        (items.map Prod.fst).foldl (fun sorted label => Metrics.insertName label sorted)
          (entries.map Prod.fst) := by
    induction items with
    | nil => exact fun entries => rfl
    | cons item items ih =>
        intro entries
        rw [List.foldl_cons, ih, map_fst_insertEntry, List.map_cons, List.foldl_cons]
  exact fromEntries []

private theorem map_fst_of_mapM {entries : List (String × NamePatterns String)}
    {results : List (String × NamePatterns α)}
    (read : entries.mapM compiler.readExtraction = .ok results) :
    results.map Prod.fst = entries.map Prod.fst := by
  have pairs := forall₂_of_mapM read
  clear read
  induction pairs with
  | nil => rfl
  | cons entryRead _ ih =>
      rw [List.map_cons, List.map_cons, ih, (Compiler.readExtraction_eq_ok_iff.mp entryRead).1]

private theorem extractionLanguages_eq {tables : Tables} {catalog : Catalog α β}
    (isRead : compile compiler tables = .ok catalog) :
    catalog.extractionLanguages = Metrics.distinctNames (tables.extraction.map Prod.fst) := by
  obtain ⟨read, extractionRead, inserted⟩ := (compile_eq_ok_iff.mp isRead).2.2.2.1
  rw [extractionLanguages, ← inserted, ← map_fst_of_mapM extractionRead]
  exact map_fst_foldl_insertEntry read

/-! Catalogs -/

/-- What a catalog holds of the tables that it is read from. -/
structure CompiledFrom (compiler : Compiler α β φ) (tables : Tables) (catalog : Catalog α β) :
    Prop where
  complexity : List.Forall₂ (SignalOf compiler) tables.complexity catalog.complexity
  security : List.Forall₂ (CategoryOf compiler) tables.security catalog.security
  performance : List.Forall₂ (CategoryOf compiler) tables.performance catalog.performance
  fingerprints : List.Forall₂ FingerprintOf tables.fingerprints catalog.fingerprints
  /-- The last entry of a language counts. -/
  extraction : ∀ before language texts after,
    tables.extraction = before ++ (language, texts) :: after → language ∉ after.map Prod.fst →
      ∃ patterns, catalog.extraction? language = some patterns ∧
        NamePatternsOf compiler texts patterns
  unlisted : ∀ language, language ∉ tables.extraction.map Prod.fst →
    catalog.extraction? language = none
  /-- The languages ascend strictly by their bytes. -/
  ascending : catalog.extractionLanguages.Pairwise fun left right =>
    Text.Utf8.encode left.toList < Text.Utf8.encode right.toList
  languages : ∀ language, language ∈ catalog.extractionLanguages ↔
    language ∈ tables.extraction.map Prod.fst

private theorem compiledFrom_of_read {tables : Tables} {catalog : Catalog α β}
    (isRead : compile compiler tables = .ok catalog) : CompiledFrom compiler tables catalog := by
  obtain ⟨complexity, security, performance, _, fingerprints⟩ := compile_eq_ok_iff.mp isRead
  have languages := extractionLanguages_eq isRead
  refine ⟨?_, ?_, ?_, ?_, ?_, fun _ => extraction?_eq_none isRead, ?_, fun language => ?_⟩
  · exact (forall₂_of_mapM complexity).imp fun _ _ => signalOf_of_read
  · exact (forall₂_of_mapM security).imp fun _ _ => categoryOf_of_read
  · exact (forall₂_of_mapM performance).imp fun _ _ => categoryOf_of_read
  · rw [← fingerprints, List.forall₂_map_right_iff, List.forall₂_same]
    exact fun _ _ => ⟨rfl, rfl⟩
  · intro before language texts after split last
    have entry : tables.extraction.reverse.lookup language = some texts := by
      rw [split, lookup_reverse_eq_some last]
    obtain ⟨patterns, known, read⟩ := exists_extraction? isRead entry
    exact ⟨patterns, known, namePatternsOf_of_read read⟩
  · rw [languages]
    exact (Metrics.pairwise_distinctNames _).imp fun less =>
      Text.Utf8.encode_lt_encode (String.lt_iff_toList_lt.mp less)
  · rw [languages, Metrics.mem_distinctNames]

end Parts

/-- Whatever reads single texts and groups of them, as long as a group does not fail where its texts
do not: a catalog is read from tables exactly if all their texts are patterns. Otherwise the error
is the first text that is none, in the order of complexity, security, performance and extraction.
What is read keeps the order of the tables, and the last entry of a language counts. -/
theorem compile_first_fault_and_parts (compiler : Compiler α β φ) (groups : Groups compiler)
    (tables : Tables) :
    ((∃ catalog, compile compiler tables = .ok catalog) ↔
      ∀ text ∈ tables.patternTexts, ∃ pattern, compiler.pattern text = .ok pattern) ∧
    (∀ bad, compile compiler tables = .error bad ↔
      ∃ before after, tables.patternTexts = before ++ bad.text :: after ∧
        (∀ text ∈ before, ∃ pattern, compiler.pattern text = .ok pattern) ∧
        compiler.pattern bad.text = .error bad.fault) ∧
    ∀ catalog, compile compiler tables = .ok catalog →
      CompiledFrom compiler tables catalog := by
  have ends : fault? (compile compiler tables) = firstFault? compiler tables.patternTexts :=
    endsAs_compile groups tables
  refine ⟨?_, fun bad => ?_, fun catalog => compiledFrom_of_read⟩
  · rw [← fault?_eq_none_iff, ends, firstFault?_eq_none_iff]
  · rw [← fault?_eq_some_iff, ends, firstFault?_eq_some_iff]

private theorem groups_pattern_compiler : Groups Pattern.compiler := by
  intro texts each
  induction texts with
  | nil => exact ⟨[], rfl⟩
  | cons text texts ih =>
      obtain ⟨pattern, read⟩ := each text List.mem_cons_self
      obtain ⟨patterns, others⟩ := ih fun other member => each other (List.mem_cons_of_mem _ member)
      refine ⟨pattern :: patterns, ?_⟩
      change (text :: texts).mapM Pattern.compiler.pattern = _
      change texts.mapM Pattern.compiler.pattern = _ at others
      rw [List.mapM_cons, read, others]
      rfl

/-- A text that is no pattern is reported from an entry that another one replaces, and of three
entries for two languages the last of each language counts. -/
theorem compile_replaced_entries :
    (∃ bad, bad.text = "(" ∧ compile Pattern.compiler
      { complexity := [("a", 1.0)], security := [("x", ["x", "y"])],
        extraction := [("php", { functions := ["("] }), ("php", { imports := [")"] })] } =
          .error bad) ∧
    ∃ catalog, compile Pattern.compiler
      { security := [("both", ["x", "y"])],
        extraction := [("b", { functions := ["x"] }), ("a", {}), ("b", { classes := ["y"] })] } =
          .ok catalog ∧
      catalog.security.length = 1 ∧
      ("a" ∈ catalog.extractionLanguages ∧ "b" ∈ catalog.extractionLanguages) ∧
      ∃ patterns, catalog.extraction? "b" = some patterns ∧ patterns.functions = [] ∧
        patterns.classes.length = 1 := by
  have read : ∀ text ∈ ["a", "x", "y"],
      ∃ pattern, Pattern.compiler.pattern text = .ok pattern := by
    have isOk : ∀ text ∈ ["a", "x", "y"], (Pattern.ofText text.toList).isOk = true := by
      decide +kernel
    exact fun text member => exists_ok (isOk text member)
  obtain ⟨_, faults, _⟩ := compile_first_fault_and_parts Pattern.compiler groups_pattern_compiler
    { complexity := [("a", 1.0)], security := [("x", ["x", "y"])],
      extraction := [("php", { functions := ["("] }), ("php", { imports := [")"] })] }
  obtain ⟨succeeds, _, parts⟩ :=
    compile_first_fault_and_parts Pattern.compiler groups_pattern_compiler
      { security := [("both", ["x", "y"])],
        extraction := [("b", { functions := ["x"] }), ("a", {}), ("b", { classes := ["y"] })] }
  refine ⟨⟨⟨"(", .unclosedGroup⟩, rfl, (faults _).mpr ⟨["a", "x", "y"], [")"], rfl, read, rfl⟩⟩, ?_⟩
  have known : ["x", "y", "x", "y"] ⊆ ["a", "x", "y"] := by decide
  obtain ⟨catalog, isRead⟩ := succeeds.mpr fun text member => read text (known member)
  have compiled := parts catalog isRead
  obtain ⟨patterns, known, named⟩ :=
    compiled.extraction [("b", { functions := ["x"] }), ("a", {})] "b" _ [] rfl (by simp)
  exact ⟨catalog, isRead, compiled.security.length_eq.symm,
    ⟨(compiled.languages "a").mpr (by simp), (compiled.languages "b").mpr (by simp)⟩,
    patterns, known, List.forall₂_nil_left_iff.mp named.functions,
    named.classes.length_eq.symm⟩

end Catalog

end SnippetAudit
