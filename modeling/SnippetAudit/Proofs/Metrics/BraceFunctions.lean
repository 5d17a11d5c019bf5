import SnippetAudit.Proofs.Catalog.Extraction
import SnippetAudit.Proofs.Complexity.Matches
import SnippetAudit.Proofs.Metrics.Names
import SnippetAudit.Proofs.Pattern.Leftmost

/-!
Names of functions with a body in braces.

The pattern for the head of such a function lets modifiers stand in front of the name, each followed
by white space or by nothing. So a name that starts like a modifier may lose that start. Nothing
else is cut off: a name ends where its word ends, and what it lacks in front are modifiers in a row.
-/

set_option autoImplicit false

namespace SnippetAudit.Metrics

open Catalog (word)
open Complexity (contains_space_iff isAsciiBlank isAsciiWord isAsciiWord_of_blank isWordChar_eq)
open Pattern (Clear Spans exists_clear_of_mem_names mayBeEmpty_row roundsTake_row row spans_row_cons
  spans_row_of_skipped)
open Scan (contains_single inTurn spans_plus_one spans_star_one spans_word)
open Text (FirstRun runsOf)

/-! The pattern -/

def blanks : Pattern := .star true (.one .space)

/-- A word and the white space behind it, where the name is still to come. -/
def returnType : Pattern := .seq word (.plus true (.one .space))

/-- The parts in front of the name: modifiers, each with the white space behind it, and a type. -/
def leading (modifiers : List Pattern) : List Pattern :=
  modifiers.flatMap (fun modifier => [.alt modifier .empty, blanks]) ++ [.alt returnType .empty]

/-- What stands behind the name: parameters in parentheses, and an opening brace. -/
def signature : Pattern :=
  row [blanks, .one (.single '('), .star true (.one (CharSet.single ')').compl), .one (.single ')'),
    blanks] (.one (.single '\x7b'))

/-- The head of a function, whose name is marked. -/
def functionHead (modifiers : List Pattern) : Pattern :=
  row (leading modifiers) (.seq (.name word) signature)

/-! Modifiers -/

/-- What may be cut off from a name: at most one word of each group, in order. -/
def leads : List (List String) → List (List Char)
  | [] => [[]]
  | group :: groups =>
      ([] :: group.map String.toList).flatMap fun modifier => (leads groups).map (modifier ++ ·)

/-- The pattern matches nothing but the words. -/
def Spells (pattern : Pattern) (words : List String) : Prop :=
  ∀ left piece right, Spans pattern left piece right → piece ∈ words.map String.toList

private theorem nil_mem_leads (groups : List (List String)) : [] ∈ leads groups := by
  induction groups with
  | nil => exact List.mem_singleton_self _
  | cons group groups ih =>
      exact List.mem_flatMap.mpr ⟨[], List.mem_cons_self, List.mem_map.mpr ⟨[], ih, rfl⟩⟩

private theorem append_mem_leads {group : List String} {groups : List (List String)}
    {modifier lead : List Char} (chosen : modifier ∈ [] :: group.map String.toList)
    (listed : lead ∈ leads groups) : modifier ++ lead ∈ leads (group :: groups) :=
  List.mem_flatMap.mpr ⟨modifier, chosen, List.mem_map.mpr ⟨lead, listed, rfl⟩⟩

/-! In front of the name -/

theorem mem_leading {modifiers : List Pattern} {part : Pattern}
    (member : part ∈ leading modifiers) :
    (∃ modifier ∈ modifiers, part = .alt modifier .empty) ∨ part = blanks ∨
      part = .alt returnType .empty := by
  simp only [leading, List.mem_append, List.mem_flatMap, List.mem_cons, List.not_mem_nil,
    or_false] at member
  rcases member with ⟨modifier, inside, rfl | rfl⟩ | rfl
  · exact .inl ⟨modifier, inside, rfl⟩
  · exact .inr (.inl rfl)
  · exact .inr (.inr rfl)

private theorem spans_nil_of_mem_leading {modifiers : List Pattern} {part : Pattern}
    (member : part ∈ leading modifiers) (left right : List Char) : Spans part left [] right := by
  rcases mem_leading member with ⟨modifier, _, rfl⟩ | rfl | rfl
  · exact .altSecond .empty
  · exact .done
  · exact .altSecond .empty

/-- What stands in front of the name ends in white space, unless it ends in modifiers that are cut
off from the word. -/
theorem exists_lead_of_spans {modifiers : List Pattern} {groups : List (List String)}
    (spells : List.Forall₂ Spells modifiers groups) {left front right : List Char}
    (spans : Spans (row (leading modifiers) .empty) left front right) :
    ∃ other lead, front = other ++ lead ∧ lead ∈ leads groups ∧
      ∀ c ∈ other.getLast?, isAsciiBlank c = true := by
  induction spells generalizing left front with
  | nil =>
      obtain ⟨typed, rest, rfl, typeSpans, nothing⟩ := spans_row_cons spans
      cases nothing
      refine ⟨typed, [], rfl, nil_mem_leads [], ?_⟩
      cases typeSpans with
      | altFirst typed =>
          cases typed with
          | seq _ gap =>
              obtain ⟨nonempty, blank⟩ := spans_plus_one.mp gap
              intro c last
              rw [List.getLast?_append_of_ne_nil _ nonempty] at last
              exact contains_space_iff.mp (blank c (List.mem_of_getLast? last))
      | altSecond none =>
          cases none
          intro c last
          cases last
  | @cons modifier group modifiers groups modifierSpells _ ih =>
      obtain ⟨first, rest, rfl, firstSpans, restSpans⟩ := spans_row_cons spans
      obtain ⟨gap, rest, rfl, gapSpans, restSpans⟩ := spans_row_cons restSpans
      obtain ⟨other, lead, rfl, listed, blank⟩ := ih restSpans
      have chosen : first ∈ [] :: group.map String.toList := by
        cases firstSpans with
        | altFirst spans => exact List.mem_cons_of_mem _ (modifierSpells _ _ _ spans)
        | altSecond none =>
            cases none
            exact List.mem_cons_self
      -- the modifier is joined with what follows only if no white space stands between
      by_cases joined : gap ++ other = []
      · obtain ⟨rfl, rfl⟩ := List.append_eq_nil_iff.mp joined
        refine ⟨[], first ++ lead, rfl, append_mem_leads chosen listed, ?_⟩
        intro c last
        cases last
      · refine ⟨first ++ (gap ++ other), lead, by simp, append_mem_leads List.mem_cons_self listed,
          ?_⟩
        intro c last
        rw [List.getLast?_append_of_ne_nil _ joined, List.getLast?_append] at last
        cases ends : other.getLast? with
        | some d =>
            rw [ends, Option.some_or] at last
            exact blank c (ends.trans last)
        | none =>
            rw [ends, Option.none_or] at last
            exact contains_space_iff.mp (spans_star_one.mp gapSpans c (List.mem_of_getLast? last))

/-! Behind the name -/

/-- A name is not followed by a word character. -/
theorem isAsciiWord_head_of_spans {left piece right : List Char}
    (spans : Spans signature left piece right) :
    ∀ c ∈ (piece ++ right).head?, isAsciiWord c = false := by
  obtain ⟨gap, rest, rfl, gapSpans, restSpans⟩ := spans_row_cons spans
  obtain ⟨opening, rest, rfl, openingSpans, _⟩ := spans_row_cons restSpans
  intro c head
  cases gap with
  | nil =>
      cases openingSpans with
      | one inside =>
          rw [contains_single.mp inside] at head
          cases head
          decide
  | cons d gap =>
      have blank := contains_space_iff.mp (spans_star_one.mp gapSpans d List.mem_cons_self)
      cases head
      exact isAsciiWord_of_blank blank

/-- The last part of a row takes the last character. -/
theorem getLast?_of_spans_row {parts : List Pattern} {c : Char} {left piece right : List Char}
    (spans : Spans (row parts (.one (.single c))) left piece right) :
    piece.getLast? = some c := by
  induction parts generalizing left piece with
  | nil =>
      cases spans with
      | one inside => rw [contains_single.mp inside, List.getLast?_singleton]
  | cons part parts ih =>
      obtain ⟨first, rest, rfl, _, restSpans⟩ := spans_row_cons spans
      rw [List.getLast?_append, ih restSpans, Option.some_or]

private theorem getLast?_of_spans_functionHead {modifiers : List Pattern}
    {left piece right : List Char} (spans : Spans (functionHead modifiers) left piece right) :
    piece.getLast? = some '\x7b' := by
  have rows : functionHead modifiers =
      row (leading modifiers ++ [.name word, blanks, .one (.single '('),
        .star true (.one (CharSet.single ')').compl), .one (.single ')'), blanks])
        (.one (.single '\x7b')) := by
    rw [functionHead, row, row, List.foldr_append]
    rfl
  rw [rows] at spans
  exact getLast?_of_spans_row spans

/-! The name -/

/-- A whole word in front of the parameters is the name of a function. -/
theorem spans_functionHead (modifiers : List Pattern) {left label after rest : List Char}
    (nonempty : label ≠ []) (worded : ∀ c ∈ label, isAsciiWord c = true)
    (spans : Spans signature (left ++ label) after rest) :
    Spans (functionHead modifiers) left (label ++ after) rest := by
  have whole : Spans word left label (after ++ rest) := by
    refine spans_plus_one.mpr ⟨nonempty, ?_⟩
    intro c member
    exact (isWordChar_eq c).trans (worded c member)
  exact spans_row_of_skipped (fun _ => spans_nil_of_mem_leading) (.seq (.name whole) spans)

section Names

variable {modifiers : List Pattern} {groups : List (List String)}

/-- No word character stands in front of the word that the name is taken from: a match would have
started there. -/
theorem isAsciiWord_last_of_clear {passed between label after rest : List Char}
    (clear : Clear (functionHead modifiers) passed between (label ++ after ++ rest))
    (worded : ∀ c ∈ label, isAsciiWord c = true) {left : List Char}
    (spans : Spans signature left after rest) :
    ∀ c ∈ (passed ++ between).getLast?, isAsciiWord c = false := by
  intro c last
  rcases List.eq_nil_or_concat between with rfl | ⟨most, d, rfl⟩
  · rw [List.append_nil] at last
    rcases clear.closed with rfl | ⟨earlier, piece, rfl, pieceSpans⟩
    · cases last
    · rw [List.getLast?_append, getLast?_of_spans_functionHead pieceSpans] at last
      cases last
      decide
  · rw [List.concat_eq_append, ← List.append_assoc, List.getLast?_concat] at last
    obtain rfl := Option.some.inj last
    cases letter : isAsciiWord d with
    | false => rfl
    | true =>
        have longer : ∀ e ∈ d :: label, isAsciiWord e = true :=
          List.forall_mem_cons.mpr ⟨letter, worded⟩
        have moved := spans.move rfl (passed ++ most ++ d :: label) rest
        have starts := spans_functionHead modifiers (List.cons_ne_nil d label) longer moved
        have misses := clear.misses most d [] List.concat_eq_append
        exact absurd starts (misses _ _ (by simp))

private theorem plain_leading
    (plain : ∀ modifier ∈ modifiers, modifier.marked = [] ∧ modifier.roundsTake = true) :
    ∀ part ∈ leading modifiers, part.marked = [] ∧ part.roundsTake = true := by
  intro part inside
  rcases mem_leading inside with ⟨modifier, known, rfl⟩ | rfl | rfl
  · obtain ⟨unmarked, rounds⟩ := plain modifier known
    exact ⟨List.append_eq_nil_iff.mpr ⟨unmarked, rfl⟩, Bool.and_eq_true_iff.mpr ⟨rounds, rfl⟩⟩
  · exact ⟨rfl, rfl⟩
  · exact ⟨rfl, rfl⟩

/-- What is named is the end of a word, and what it lacks are modifiers in a row. -/
theorem exists_lead_of_mem_names (spells : List.Forall₂ Spells modifiers groups)
    (plain : ∀ modifier ∈ modifiers, modifier.marked = [] ∧ modifier.roundsTake = true)
    (worded : ∀ lead ∈ leads groups, ∀ c ∈ lead, isAsciiWord c = true) {text label : List Char}
    (member : label ∈ (functionHead modifiers).names text) :
    label ≠ [] ∧ ∃ lead ∈ leads groups, lead ++ label ∈ runsOf isAsciiWord text := by
  have parts := plain_leading plain
  have rounds : (functionHead modifiers).roundsTake = true :=
    roundsTake_row (fun part inside => (parts part inside).2) rfl
  obtain ⟨passed, between, before, after, rest, rfl, clear, front, name, tail⟩ :=
    exists_clear_of_mem_names rounds (mayBeEmpty_row rfl) (fun part inside => (parts part inside).1)
      rfl rfl member
  obtain ⟨other, lead, rfl, listed, blank⟩ := exists_lead_of_spans spells front
  obtain ⟨nonempty, letters⟩ := spans_plus_one.mp name
  have run : FirstRun isAsciiWord true (lead ++ label) (after ++ rest) := by
    refine ⟨List.append_ne_nil_of_right_ne_nil lead nonempty, ?_, isAsciiWord_head_of_spans tail⟩
    intro c inside
    rcases List.mem_append.mp inside with inLead | inLabel
    · exact worded lead listed c inLead
    · exact (isWordChar_eq c).symm.trans (letters c inLabel)
  have starts : ∀ c ∈ (passed ++ between ++ other).getLast?, isAsciiWord c = false := by
    by_cases empty : other = []
    · subst empty
      rw [List.append_nil]
      replace clear : Clear (functionHead modifiers) passed between _ := clear
      rw [List.nil_append, ← List.append_assoc lead] at clear
      exact isAsciiWord_last_of_clear clear run.uniform tail
    · intro c last
      rw [List.getLast?_append_of_ne_nil _ empty] at last
      exact isAsciiWord_of_blank (blank c last)
  refine ⟨nonempty, lead, listed, ?_⟩
  have whole := run.mem_runsOf starts
  simpa using whole

end Names

/-! The languages -/

def braceLanguages : List String :=
  ["java", "cpp", "csharp"]

/-- The modifiers that may stand in front of a function, in groups of which one each is taken. -/
def modifiersOf (language : String) : List (List String) :=
  if language = "cpp" then [["inline", "virtual"]]
  else [["public", "private", "protected"], ["static"]]

def letters (text : String) : Pattern :=
  inTurn (text.toList.map fun c => .one (.single c))

/-- The patterns of the groups of modifiers. -/
def modifierPatterns (language : String) : List Pattern :=
  if language = "cpp" then [.alt (letters "inline") (letters "virtual")]
  else
    [.seq (.one (.single 'p'))
        (.alt (letters "ublic") (.alt (letters "rivate") (letters "rotected"))),
      letters "static"]

theorem spells_letters (text : String) : Spells (letters text) [text] := by
  intro left piece right spans
  exact List.mem_singleton.mpr (spans_word.mp spans)

theorem Spells.alt {first second : Pattern} {words others : List String}
    (firstSpells : Spells first words) (secondSpells : Spells second others) :
    Spells (.alt first second) (words ++ others) := by
  intro left piece right spans
  rw [List.map_append]
  cases spans with
  | altFirst spans => exact List.mem_append_left _ (firstSpells _ _ _ spans)
  | altSecond spans => exact List.mem_append_right _ (secondSpells _ _ _ spans)

theorem Spells.behind {c : Char} {pattern : Pattern} {words longer : List String}
    (spells : Spells pattern words)
    (same : longer.map String.toList = (words.map String.toList).map (c :: ·)) :
    Spells (.seq (.one (.single c)) pattern) longer := by
  intro left piece right spans
  rw [same]
  cases spans with
  | seq first rest =>
      cases first with
      | one inside =>
          rw [contains_single.mp inside]
          exact List.mem_map_of_mem (spells _ _ _ rest)

private theorem spells_modifierPatterns (language : String) :
    List.Forall₂ Spells (modifierPatterns language) (modifiersOf language) := by
  unfold modifierPatterns modifiersOf
  split
  · exact .cons ((spells_letters "inline").alt (spells_letters "virtual")) .nil
  · have visibility := (spells_letters "ublic").alt
      ((spells_letters "rivate").alt (spells_letters "rotected"))
    exact .cons (visibility.behind (by decide)) (.cons (spells_letters "static") .nil)

private theorem plain_modifierPatterns (language : String) : ∀ modifier ∈ modifierPatterns language,
    modifier.marked = [] ∧ modifier.roundsTake = true := by
  unfold modifierPatterns
  split <;> decide +kernel

private theorem isAsciiWord_of_mem_leads {language : String} :
    ∀ lead ∈ leads (modifiersOf language), ∀ c ∈ lead, isAsciiWord c = true := by
  have all : (leads (modifiersOf language)).all (·.all isAsciiWord) = true := by
    unfold modifiersOf
    split <;> decide +kernel
  intro lead listed
  exact List.all_eq_true.mp (List.all_eq_true.mp all lead listed)

/-- The text that the pattern of a language is read from. -/
def headText (language : String) : String :=
  if language = "cpp" then Catalog.Builtin.braceFunction else Catalog.Builtin.braceMethod

private theorem lookup_extraction_brace : ∀ language ∈ braceLanguages,
    (Catalog.Builtin.extraction.reverse.lookup language).map NamePatterns.functions =
      some [headText language] := by
  decide +kernel

private theorem ofText_headText (language : String) :
    Pattern.ofText (headText language).toList =
      .ok (functionHead (modifierPatterns language)) := by
  apply eq_ok_of_toOption
  unfold headText modifierPatterns
  split <;> decide +kernel

private theorem readPattern_headText (language : String) :
    Pattern.compiler.readPattern (headText language) =
      .ok (functionHead (modifierPatterns language)) := by
  rw [Compiler.readPattern_eq_ok_iff]
  exact ofText_headText language

/-- The names of functions are those of one pattern. -/
theorem namesIn_functions_brace {language : String} (member : language ∈ braceLanguages)
    (text : List Char) :
    namesIn .builtin .functions language text =
      distinctNames
        (((functionHead (modifierPatterns language)).names text).map String.ofList) := by
  have related := Catalog.extraction?_rel Catalog.compile_builtin language
  obtain ⟨texts, found, functions⟩ :=
    Option.map_eq_some_iff.mp (lookup_extraction_brace language member)
  change Option.Rel _ (Catalog.Builtin.extraction.reverse.lookup language) _ at related
  rw [found] at related
  rw [namesIn]
  cases known : Catalog.builtin.extraction? language with
  | none =>
      rw [known] at related
      cases related
  | some patterns =>
      rw [known] at related
      cases related with
      | some read =>
          rw [Compiler.readNamePatterns, functions, List.mapM_cons, readPattern_headText] at read
          obtain ⟨heads, headsRead, read⟩ := bind_eq_ok_iff.mp read
          cases headsRead
          obtain ⟨classes, _, read⟩ := bind_eq_ok_iff.mp read
          obtain ⟨imports, _, read⟩ := bind_eq_ok_iff.mp read
          cases read
          simp [Kind.select]

/-- A name of a function is the end of a word. What it lacks of the word are modifiers in a row, so
it is the whole word if no word of the text goes on behind modifiers that it starts with. -/
theorem functions_brace_words {language : String} (member : language ∈ braceLanguages)
    {text : List Char} {label : String}
    (named : label ∈ namesIn .builtin .functions language text) :
    label ≠ "" ∧
      (∃ lead ∈ leads (modifiersOf language), lead ++ label.toList ∈ runsOf isAsciiWord text) ∧
      ((∀ run ∈ runsOf isAsciiWord text, ∀ lead ∈ leads (modifiersOf language),
          lead <+: run → lead = [] ∨ lead = run) →
        label.toList ∈ runsOf isAsciiWord text) := by
  rw [namesIn_functions_brace member, mem_distinctNames] at named
  obtain ⟨chars, inside, rfl⟩ := List.mem_map.mp named
  rw [String.toList_ofList]
  obtain ⟨nonempty, lead, listed, run⟩ :=
    exists_lead_of_mem_names (spells_modifierPatterns language) (plain_modifierPatterns language)
      isAsciiWord_of_mem_leads inside
  refine ⟨fun empty => nonempty (String.ofList_eq_empty_iff.mp empty), ⟨lead, listed, run⟩, ?_⟩
  intro uncut
  rcases uncut _ run lead listed (List.prefix_append lead chars) with rfl | whole
  · exact run
  · exact absurd (List.self_eq_append_right.mp whole) nonempty

theorem functions_brace_words_whole :
    "foo" ∈ namesIn .builtin .functions "java" "public int foo(a) \x7b".toList ∧
      "foo".toList ∈ runsOf isAsciiWord "public int foo(a) \x7b".toList := by
  have named : "foo" ∈ namesIn .builtin .functions "java" "public int foo(a) \x7b".toList := by
    rw [namesIn_functions_brace (by decide)]
    decide +kernel
  exact ⟨named, (functions_brace_words (by decide) named).2.2 (by decide +kernel)⟩

/-- In each of the languages a name can lose its start. -/
theorem functions_brace_cut :
    (namesIn .builtin .functions "java" "publicfoo()\x7b".toList = ["foo"] ∧
      runsOf isAsciiWord "publicfoo()\x7b".toList = ["publicfoo".toList]) ∧
    (namesIn .builtin .functions "cpp" "inlinefoo()\x7b".toList = ["foo"] ∧
      runsOf isAsciiWord "inlinefoo()\x7b".toList = ["inlinefoo".toList]) ∧
    (namesIn .builtin .functions "csharp" "protectedstaticfoo()\x7b".toList = ["foo"] ∧
      runsOf isAsciiWord "protectedstaticfoo()\x7b".toList = ["protectedstaticfoo".toList]) := by
  rw [namesIn_functions_brace (by decide), namesIn_functions_brace (by decide),
    namesIn_functions_brace (by decide)]
  decide +kernel

end SnippetAudit.Metrics
