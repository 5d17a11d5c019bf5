import SnippetAudit.Proofs.Pattern.Spans
import SnippetAudit.Proofs.Text.Lines

/-!
Phrases: rows of words with gaps between them.

A phrase says in plain terms what the patterns of the scans look for. It has a text, from which its
pattern is read, and the pattern occurs exactly where some piece of the text fits the phrase. If all
gaps stay within a line, this is the case exactly if one line holds the words in order.
-/

set_option autoImplicit false

namespace SnippetAudit.Scan

open Pattern (Spans)

/-! What fits -/

/-- ASCII white space. -/
def asciiBlanks : List Char :=
  ['\t', '\n', '\x0b', '\x0c', '\r', ' ']

def quoteSigns : List Char :=
  ['"', '\x27']

/-- A part of a phrase: a word, a gap within a line, a gap of white space, or something in
quotes. -/
inductive Part where
  | word (text : String)
  | gap
  | blanks
  | quoted
  deriving DecidableEq

abbrev Phrase := List Part

inductive Part.Fits : Part → List Char → Prop where
  | word {text : String} : Fits (.word text) text.toList
  | gap {piece : List Char} : (∀ c ∈ piece, c ≠ '\n') → Fits .gap piece
  | blanks {piece : List Char} : (∀ c ∈ piece, c ∈ asciiBlanks) → Fits .blanks piece
  | quoted {opening closing : Char} {inner : List Char} :
      opening ∈ quoteSigns → inner ≠ [] → (∀ c ∈ inner, c ∉ quoteSigns) → closing ∈ quoteSigns →
      Fits .quoted (opening :: (inner ++ [closing]))

/-- A piece fits a phrase if it splits into pieces that fit the parts. -/
inductive Phrase.Fits : Phrase → List Char → Prop where
  | nil : Fits [] []
  | cons {part : Part} {phrase : Phrase} {piece rest : List Char} :
      part.Fits piece → Fits phrase rest → Fits (part :: phrase) (piece ++ rest)

def Phrase.OccursIn (phrase : Phrase) (text : List Char) : Prop :=
  ∃ piece, piece <:+: text ∧ phrase.Fits piece

/-! Pattern texts -/

/-- The characters that are not taken literally in a pattern text, as far as words have them. -/
def isSign (c : Char) : Bool :=
  c = '$' || c = '[' || c = ']' || c = '(' || c = '\x7b' || c = '.' || c = '+'

def Part.text : Part → List Char
  | .word text => text.toList.flatMap fun c => if isSign c then ['\\', c] else [c]
  | .gap => ['.', '*']
  | .blanks => ['[', '[', ':', 's', 'p', 'a', 'c', 'e', ':', ']', ']', '*']
  | .quoted =>
      ['[', '"', '\x27', ']', '[', '^', '"', '\x27', ']', '+', '[', '"', '\x27', ']']

/-- The text of a phrase as a pattern. -/
def Phrase.text (phrase : Phrase) : List Char :=
  phrase.flatMap Part.text

/-! Patterns -/

def quotes : CharSet :=
  (CharSet.single '"').union (.single '\x27')

def Part.patterns : Part → List Pattern
  | .word text => text.toList.map fun c => .one (.single c)
  | .gap => [.star true (.one (CharSet.single '\n').compl)]
  | .blanks => [.star true (.one .space)]
  | .quoted => [.one quotes, .plus true (.one quotes.compl), .one quotes]

/-- The patterns one after the other. -/
def inTurn : List Pattern → Pattern
  | [] => .empty
  | [pattern] => pattern
  | pattern :: patterns => .seq pattern (inTurn patterns)

def Phrase.pattern (phrase : Phrase) : Pattern :=
  inTurn (phrase.flatMap Part.patterns)

theorem roundsTake_inTurn {patterns : List Pattern}
    (each : ∀ pattern ∈ patterns, pattern.roundsTake = true) :
    (inTurn patterns).roundsTake = true := by
  induction patterns with
  | nil => rfl
  | cons pattern patterns ih =>
      have first := each pattern List.mem_cons_self
      have rest := ih fun other member => each other (List.mem_cons_of_mem pattern member)
      cases patterns with
      | nil => exact first
      | cons next patterns => exact Bool.and_eq_true_iff.mpr ⟨first, rest⟩

theorem roundsTake_pattern (phrase : Phrase) : phrase.pattern.roundsTake = true := by
  apply roundsTake_inTurn
  intro pattern member
  obtain ⟨part, _, inside⟩ := List.mem_flatMap.mp member
  cases part with
  | word text =>
      obtain ⟨c, _, rfl⟩ := List.mem_map.mp inside
      rfl
  | gap =>
      obtain rfl := List.mem_singleton.mp inside
      rfl
  | blanks =>
      obtain rfl := List.mem_singleton.mp inside
      rfl
  | quoted =>
      simp only [Part.patterns, List.mem_cons, List.not_mem_nil, or_false] at inside
      rcases inside with rfl | rfl | rfl <;> rfl

/-! Sets of characters -/

theorem contains_iff {set : CharSet} {c : Char} :
    set.contains c = true ↔
      ∃ range ∈ set.ranges, range.1 ≤ c.toNat ∧ c.toNat ≤ range.2 := by
  simp [CharSet.contains, Text.inRanges]

theorem toNat_le_lastCode (c : Char) : c.toNat ≤ 0x10FFFF := by
  have valid := c.valid
  simp only [UInt32.isValidChar, Nat.isValidChar] at valid
  change c.val.toNat ≤ _
  omega

theorem contains_single {c d : Char} : (CharSet.single d).contains c = true ↔ c = d := by
  simp only [contains_iff, CharSet.single, CharSet.range, List.mem_singleton, exists_eq_left,
    ← Char.toNat_inj]
  omega

private theorem contains_gap {c : Char} :
    (CharSet.single '\n').compl.contains c = true ↔ c ≠ '\n' := by
  have ranges : (CharSet.single '\n').compl = ⟨[(0, 9), (11, 0x10FFFF)]⟩ := by decide
  have bound := toNat_le_lastCode c
  simp only [ranges, contains_iff, ne_eq, ← Char.toNat_inj]
  simp
  omega

theorem contains_space {c : Char} : CharSet.space.contains c = true ↔ c ∈ asciiBlanks := by
  have ranges : CharSet.space = ⟨[(9, 13), (32, 32)]⟩ := by decide
  simp only [ranges, contains_iff, asciiBlanks, List.mem_cons, ← Char.toNat_inj]
  simp
  omega

theorem contains_quotes {c : Char} : quotes.contains c = true ↔ c ∈ quoteSigns := by
  have ranges : quotes = ⟨[(34, 34), (39, 39)]⟩ := by decide
  simp only [ranges, contains_iff, quoteSigns, List.mem_cons, ← Char.toNat_inj]
  simp
  omega

theorem contains_compl_quotes {c : Char} : quotes.compl.contains c = true ↔ c ∉ quoteSigns := by
  have ranges : quotes.compl = ⟨[(0, 33), (35, 38), (40, 0x10FFFF)]⟩ := by decide
  have bound := toNat_le_lastCode c
  simp only [ranges, contains_iff, quoteSigns, List.mem_cons, ← Char.toNat_inj]
  simp
  omega

/-! Pieces that the pattern of a phrase matches -/

theorem spans_star_one {greedy : Bool} {set : CharSet} {left piece right : List Char} :
    Spans (.star greedy (.one set)) left piece right ↔ ∀ c ∈ piece, set.contains c = true := by
  induction piece generalizing left with
  | nil => exact ⟨fun _ _ member => absurd member List.not_mem_nil, fun _ => .done⟩
  | cons c piece ih =>
      rw [List.forall_mem_cons]
      constructor
      · intro spans
        generalize whole : c :: piece = all at spans
        cases spans with
        | done => cases whole
        | round first rest =>
            cases first with
            | one inside =>
                cases whole
                exact ⟨inside, ih.mp rest⟩
      · intro inside
        exact .round (.one inside.1) (ih.mpr inside.2)

theorem spans_plus_one {greedy : Bool} {set : CharSet} {left piece right : List Char} :
    Spans (.plus greedy (.one set)) left piece right ↔
      piece ≠ [] ∧ ∀ c ∈ piece, set.contains c = true := by
  constructor
  · intro spans
    cases spans with
    | plus first rest =>
        cases first with
        | one inside =>
            exact ⟨List.cons_ne_nil _ _, List.forall_mem_cons.mpr ⟨inside, spans_star_one.mp rest⟩⟩
  · intro inside
    obtain ⟨nonempty, all⟩ := inside
    obtain ⟨c, piece, rfl⟩ := List.exists_cons_of_ne_nil nonempty
    rw [List.forall_mem_cons] at all
    exact .plus (.one all.1) (spans_star_one.mpr all.2)

theorem spans_inTurn_cons {pattern : Pattern} {patterns : List Pattern}
    {left piece right : List Char} :
    Spans (inTurn (pattern :: patterns)) left piece right ↔
      ∃ first rest, piece = first ++ rest ∧ Spans pattern left first (rest ++ right) ∧
        Spans (inTurn patterns) (left ++ first) rest right := by
  cases patterns with
  | nil =>
      constructor
      · intro spans
        exact ⟨piece, [], (List.append_nil _).symm, spans, .empty⟩
      · intro split
        obtain ⟨first, _, rfl, spans, nothing⟩ := split
        cases nothing
        rwa [List.append_nil]
  | cons next patterns =>
      constructor
      · intro spans
        cases spans with
        | seq first rest => exact ⟨_, _, rfl, first, rest⟩
      · intro split
        obtain ⟨_, _, rfl, first, rest⟩ := split
        exact .seq first rest

theorem spans_inTurn_append {patterns others : List Pattern} {left piece right : List Char} :
    Spans (inTurn (patterns ++ others)) left piece right ↔
      ∃ first rest, piece = first ++ rest ∧ Spans (inTurn patterns) left first (rest ++ right) ∧
        Spans (inTurn others) (left ++ first) rest right := by
  induction patterns generalizing left piece with
  | nil =>
      constructor
      · intro spans
        exact ⟨[], piece, rfl, .empty, by rwa [List.append_nil]⟩
      · intro split
        obtain ⟨_, rest, rfl, nothing, spans⟩ := split
        cases nothing
        rwa [List.append_nil] at spans
  | cons pattern patterns ih =>
      rw [List.cons_append, spans_inTurn_cons]
      constructor
      · intro split
        obtain ⟨first, _, rfl, spans, later⟩ := split
        obtain ⟨middle, rest, rfl, middleSpans, restSpans⟩ := ih.mp later
        refine ⟨first ++ middle, rest, (List.append_assoc ..).symm, ?_,
          by rwa [← List.append_assoc]⟩
        rw [List.append_assoc] at spans
        exact spans_inTurn_cons.mpr ⟨first, middle, rfl, spans, middleSpans⟩
      · intro split
        obtain ⟨_, rest, rfl, spans, restSpans⟩ := split
        obtain ⟨first, middle, rfl, firstSpans, middleSpans⟩ := spans_inTurn_cons.mp spans
        refine ⟨first, middle ++ rest, List.append_assoc .., ?_, ih.mpr ?_⟩
        · rwa [List.append_assoc]
        · exact ⟨middle, rest, rfl, middleSpans, by rwa [List.append_assoc]⟩

theorem spans_word {chars left piece right : List Char} :
    Spans (inTurn (chars.map fun c => .one (.single c))) left piece right ↔ piece = chars := by
  induction chars generalizing left piece with
  | nil =>
      constructor
      · intro spans
        cases spans
        rfl
      · intro same
        subst same
        exact .empty
  | cons c chars ih =>
      rw [List.map_cons, spans_inTurn_cons]
      constructor
      · intro split
        obtain ⟨_, rest, rfl, first, restSpans⟩ := split
        cases first with
        | one inside => rw [contains_single.mp inside, ih.mp restSpans, List.singleton_append]
      · intro same
        subst same
        exact ⟨[c], chars, rfl, .one (contains_single.mpr rfl), ih.mpr rfl⟩

private theorem spans_quoted {left piece right : List Char} :
    Spans (inTurn Part.quoted.patterns) left piece right ↔ Part.quoted.Fits piece := by
  rw [Part.patterns, spans_inTurn_cons]
  constructor
  · intro split
    obtain ⟨_, rest, rfl, opening, rest⟩ := split
    obtain ⟨inner, _, rfl, innerSpans, closing⟩ := spans_inTurn_cons.mp rest
    obtain ⟨nonempty, all⟩ := spans_plus_one.mp innerSpans
    cases opening with
    | one opening =>
        cases closing with
        | one closing =>
            exact .quoted (contains_quotes.mp opening) nonempty
              (fun c member => contains_compl_quotes.mp (all c member)) (contains_quotes.mp closing)
  · intro fits
    cases fits with
    | @quoted opening closing inner openingSign some all closingSign =>
        refine ⟨[opening], inner ++ [closing], rfl, .one (contains_quotes.mpr openingSign), ?_⟩
        refine spans_inTurn_cons.mpr
          ⟨inner, [closing], rfl, spans_plus_one.mpr ⟨some, ?_⟩,
            .one (contains_quotes.mpr closingSign)⟩
        intro c member
        exact contains_compl_quotes.mpr (all c member)

private theorem spans_part (part : Part) {left piece right : List Char} :
    Spans (inTurn part.patterns) left piece right ↔ part.Fits piece := by
  cases part with
  | word text =>
      rw [Part.patterns, spans_word]
      constructor
      · intro same
        exact same ▸ .word
      · intro fits
        cases fits
        rfl
  | gap =>
      rw [Part.patterns, inTurn, spans_star_one]
      simp only [contains_gap]
      exact ⟨.gap, fun fits => by cases fits; assumption⟩
  | blanks =>
      rw [Part.patterns, inTurn, spans_star_one]
      simp only [contains_space]
      exact ⟨.blanks, fun fits => by cases fits; assumption⟩
  | quoted => exact spans_quoted

private theorem spans_pattern (phrase : Phrase) {left piece right : List Char} :
    Spans phrase.pattern left piece right ↔ phrase.Fits piece := by
  induction phrase generalizing left piece with
  | nil =>
      constructor
      · intro spans
        cases spans
        exact .nil
      · intro fits
        cases fits
        exact .empty
  | cons part phrase ih =>
      rw [Phrase.pattern, List.flatMap_cons, spans_inTurn_append]
      constructor
      · intro split
        obtain ⟨_, _, rfl, first, rest⟩ := split
        exact .cons ((spans_part part).mp first) (ih.mp rest)
      · intro fits
        cases fits with
        | cons first rest => exact ⟨_, _, rfl, (spans_part part).mpr first, ih.mpr rest⟩

/-- The pattern of a phrase is found in a text exactly if some piece of the text fits. -/
theorem occursIn_pattern_iff {phrase : Phrase} {text : List Char} :
    phrase.pattern.occursIn text = true ↔ phrase.OccursIn text := by
  rw [Pattern.occursIn_iff_spans (roundsTake_pattern phrase)]
  constructor
  · intro occurs
    obtain ⟨left, piece, right, rfl, spans⟩ := occurs
    exact ⟨piece, ⟨left, right, List.append_assoc ..⟩, (spans_pattern phrase).mp spans⟩
  · intro occurs
    obtain ⟨piece, ⟨left, right, rfl⟩, fits⟩ := occurs
    exact ⟨left, piece, right, List.append_assoc .., (spans_pattern phrase).mpr fits⟩

instance (phrase : Phrase) (text : List Char) : Decidable (phrase.OccursIn text) :=
  decidable_of_iff (phrase.pattern.occursIn text = true) occursIn_pattern_iff

/-! Phrases within a line -/

def Phrase.words (phrase : Phrase) : List String :=
  phrase.filterMap fun
    | .word text => some text
    | _ => none

/-- No gap of the phrase can hold a line feed. -/
def Phrase.IsPlain (phrase : Phrase) : Prop :=
  .blanks ∉ phrase ∧ .quoted ∉ phrase

instance (phrase : Phrase) : Decidable phrase.IsPlain :=
  inferInstanceAs (Decidable (_ ∧ _))

/-- The words stand in the line one after the other. -/
inductive InOrder : List String → List Char → Prop where
  | nil {line : List Char} : InOrder [] line
  | cons {word : String} {words : List String} {before after : List Char} :
      InOrder words after → InOrder (word :: words) (before ++ (word.toList ++ after))

theorem InOrder.append_left {words : List String} {line : List Char} (held : InOrder words line)
    (before : List Char) : InOrder words (before ++ line) := by
  cases held with
  | nil => exact .nil
  | cons rest =>
      rw [← List.append_assoc]
      exact .cons rest

theorem InOrder.append_right {words : List String} {line : List Char} (held : InOrder words line)
    (after : List Char) : InOrder words (line ++ after) := by
  induction held with
  | nil => exact .nil
  | cons _ ih =>
      rw [List.append_assoc, List.append_assoc]
      exact .cons ih

/-- A piece that fits holds the words of the phrase in order. -/
theorem Phrase.Fits.inOrder {phrase : Phrase} {piece : List Char} (fits : phrase.Fits piece) :
    InOrder phrase.words piece := by
  induction fits with
  | nil => exact .nil
  | cons first _ ih =>
      cases first with
      | word => exact @InOrder.cons _ _ [] _ ih
      | gap => exact ih.append_left _
      | blanks => exact ih.append_left _
      | quoted => exact ih.append_left _

theorem Phrase.Fits.noFeed {phrase : Phrase} {piece : List Char} (fits : phrase.Fits piece)
    (plain : phrase.IsPlain) (noFeed : ∀ word ∈ phrase.words, '\n' ∉ word.toList) :
    '\n' ∉ piece := by
  induction fits with
  | nil => exact List.not_mem_nil
  | @cons part phrase _ _ first _ ih =>
      have restPlain : Phrase.IsPlain phrase :=
        ⟨fun inside => plain.1 (List.mem_cons_of_mem part inside),
          fun inside => plain.2 (List.mem_cons_of_mem part inside)⟩
      rw [List.mem_append, not_or]
      cases first with
      | word =>
          refine ⟨noFeed _ List.mem_cons_self, ih restPlain fun word member => ?_⟩
          exact noFeed word (List.mem_cons_of_mem _ member)
      | gap within => exact ⟨fun inside => within '\n' inside rfl, ih restPlain noFeed⟩
      | blanks => exact absurd List.mem_cons_self plain.1
      | quoted => exact absurd List.mem_cons_self plain.2

/-- The words with a gap between each two. -/
def spaced : List String → Phrase
  | [] => []
  | [word] => [.word word]
  | word :: words => .word word :: .gap :: spaced words

theorem InOrder.exists_fits {words : List String} {line : List Char} (held : InOrder words line)
    (nonempty : words ≠ []) (noFeed : '\n' ∉ line) :
    ∃ before piece after, line = before ++ (piece ++ after) ∧ (spaced words).Fits piece := by
  induction held with
  | nil => exact absurd rfl nonempty
  | @cons word words before after rest ih =>
      rw [List.mem_append, List.mem_append, not_or, not_or] at noFeed
      cases words with
      | nil =>
          refine ⟨before, word.toList, after, rfl, ?_⟩
          rw [← List.append_nil word.toList]
          exact .cons .word .nil
      | cons next words =>
          obtain ⟨gap, piece, after, rfl, fits⟩ := ih (List.cons_ne_nil _ _) noFeed.2.2
          refine ⟨before, word.toList ++ (gap ++ piece), after, by simp only [List.append_assoc],
            .cons .word (.cons (.gap fun c inside feed => ?_) fits)⟩
          subst feed
          exact noFeed.2.2 (List.mem_append_left _ inside)

/-- Words with gaps between them occur exactly if one line holds the words in order. -/
theorem occursIn_spaced_iff {phrase : Phrase} (plain : phrase.IsPlain)
    (gaps : phrase = spaced phrase.words) (nonempty : phrase.words ≠ [])
    (noFeed : ∀ word ∈ phrase.words, '\n' ∉ word.toList) {text : List Char} :
    phrase.OccursIn text ↔ ∃ line ∈ Text.lines text, InOrder phrase.words line := by
  constructor
  · intro occurs
    obtain ⟨piece, inside, fits⟩ := occurs
    obtain ⟨line, member, before, after, rfl⟩ :=
      Text.infix_line_of_infix inside (fits.noFeed plain noFeed)
    exact ⟨_, member, (fits.inOrder.append_left before).append_right after⟩
  · intro held
    obtain ⟨line, member, inOrder⟩ := held
    obtain ⟨before, piece, after, rfl, fits⟩ :=
      inOrder.exists_fits nonempty (Text.newline_notMem_of_mem_lines member)
    rw [← gaps] at fits
    have inLine : piece <:+: before ++ (piece ++ after) := ⟨before, after, List.append_assoc ..⟩
    exact ⟨piece, inLine.trans (Text.infix_of_mem_lines member), fits⟩

end SnippetAudit.Scan
