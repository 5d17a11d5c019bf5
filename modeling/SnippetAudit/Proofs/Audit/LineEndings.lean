import SnippetAudit.Audit
import SnippetAudit.Proofs.Audit.Agreement
import SnippetAudit.Proofs.Text.Returns

/-!
Carriage returns before line feeds change nothing that is counted or reported.
-/

set_option autoImplicit false

namespace SnippetAudit

open Text (AddsReturns IsUnbroken runs runsOf FirstRun)

/-! Tokens -/

namespace Complexity

variable {text other : List Char}

private theorem firstRun_of_addsReturns {holds : Char → Bool} {kind : Bool}
    {run rest run' rest' : List Char} (same : holds '\r' = holds '\n')
    (first : FirstRun holds kind run rest) (addedRun : AddsReturns run run')
    (addedRest : AddsReturns rest rest') : FirstRun holds kind run' rest' where
  nonempty := fun empty => first.nonempty (addedRun.nil_iff.mp empty)
  uniform := addedRun.forall_mem (fun feed => same.trans feed) first.uniform
  ends := by
    have ends := first.ends
    cases addedRest with
    | nil => exact ends
    | keep _ => exact ends
    | insert _ =>
        intro c head
        cases head
        exact same.trans (ends '\n' rfl)

/-- If the two characters of a line ending are of one kind, no run is cut or joined. -/
theorem forall₂_runs {holds : Char → Bool} (same : holds '\r' = holds '\n')
    (added : AddsReturns text other) :
    List.Forall₂ AddsReturns (runs holds text) (runs holds other) := by
  induction text using Text.runs_induction holds generalizing other with
  | nil =>
      cases added
      exact .nil
  | append kind run rest first ih =>
      obtain ⟨run', rest', rfl, addedRun, addedRest⟩ := added.split_left
      rw [first.runs_eq, (firstRun_of_addsReturns same first addedRun addedRest).runs_eq]
      exact .cons addedRun (ih addedRest)

theorem runsOf_eq {holds : Char → Bool} (feed : holds '\n' = false) (ret : holds '\r' = false)
    (added : AddsReturns text other) : runsOf holds other = runsOf holds text := by
  have related := forall₂_runs (ret.trans feed.symm) added
  rw [runsOf, runsOf]
  generalize runs holds text = first, runs holds other = second at related ⊢
  induction related with
  | nil => rfl
  | @cons run run' _ _ added _ ih =>
      rw [List.filter_cons, List.filter_cons, added.all_eq (ret.trans feed.symm), ih]
      split
      · next all =>
          have noFeed : '\n' ∉ run := by
            intro inside
            rw [List.all_eq_true.mp all _ inside] at feed
            cases feed
          rw [added.eq_of_noFeed noFeed]
      · rfl

private theorem startsElseIf_eq {first second : List (List Char)}
    (related : List.Forall₂ AddsReturns first second) :
    startsElseIf second = startsElseIf first := by
  have word : ∀ {run run' : List Char}, AddsReturns run run' → ∀ keyword, IsUnbroken keyword →
      (run' == keyword) = (run == keyword) := by
    intro run run' added keyword unbroken
    exact Bool.eq_iff_iff.mpr (by rw [beq_iff_eq, beq_iff_eq, added.eq_word_iff unbroken])
  cases related with
  | nil => rfl
  | cons one rest =>
      cases rest with
      | nil => rfl
      | cons two rest =>
          cases rest with
          | nil => rfl
          | cons three _ =>
              rw [startsElseIf, startsElseIf, word one _ (by decide), word three _ (by decide),
                two.all_eq (by decide)]

private theorem elseIfCount_eq (added : AddsReturns text other) :
    elseIfCount other = elseIfCount text := by
  have same : isAsciiWord '\r' = isAsciiWord '\n' := by decide
  have related := forall₂_runs same added
  rw [elseIfCount, elseIfCount]
  generalize runs isAsciiWord text = first, runs isAsciiWord other = second at related ⊢
  induction related with
  | nil => rfl
  | cons added rest ih =>
      rw [List.tails_cons, List.tails_cons, List.countP_cons, List.countP_cons, ih,
        startsElseIf_eq (.cons added rest)]

private theorem head?_dropWhile_eq {holds : Char → Bool} (feed : holds '\n' = true)
    (ret : holds '\r' = true) (added : AddsReturns text other) :
    (other.dropWhile holds).head? = (text.dropWhile holds).head? := by
  induction added with
  | nil => rfl
  | keep _ ih =>
      rw [List.dropWhile_cons, List.dropWhile_cons]
      split
      · exact ih
      · rfl
  | insert _ ih =>
      rw [List.dropWhile_cons_of_pos ret, List.dropWhile_cons_of_pos feed,
        List.dropWhile_cons_of_pos feed]
      exact ih

theorem startsTernary_cons_eq (c : Char) (added : AddsReturns text other) :
    startsTernary (c :: other) = startsTernary (c :: text) := by
  cases added with
  | nil => rfl
  | keep rest =>
      rw [startsTernary, startsTernary, head?_dropWhile_eq (by decide) (by decide) rest]
  | insert rest =>
      -- the line ending is directly behind the first character, where the mark has to be
      simp [startsTernary]

private theorem ternaryCount_eq (added : AddsReturns text other) :
    ternaryCount other = ternaryCount text := by
  rw [ternaryCount, ternaryCount]
  induction added with
  | nil => rfl
  | @keep c _ _ rest ih =>
      rw [List.tails_cons, List.tails_cons, List.countP_cons, List.countP_cons, ih,
        startsTernary_cons_eq c rest]
  | @insert text other rest ih =>
      have feed : startsTernary ('\n' :: other) = startsTernary ('\n' :: text) :=
        startsTernary_cons_eq '\n' rest
      -- the new tail starts with the carriage return, which belongs to no word
      have ret : startsTernary ('\r' :: '\n' :: other) = false := rfl
      rw [List.tails_cons, List.tails_cons, List.tails_cons, List.countP_cons, List.countP_cons,
        List.countP_cons, ih, feed, ret]
      rfl

/-- No line ending is a sign that is counted in pairs. -/
def Token.IsUnbroken : Token → Prop
  | .pair sign => Text.IsUnbroken [sign]
  | _ => True

instance : DecidablePred Token.IsUnbroken
  | .pair sign => inferInstanceAs (Decidable (Text.IsUnbroken [sign]))
  | .keyword _ => .isTrue trivial
  | .elseIf => .isTrue trivial
  | .ternary => .isTrue trivial

private theorem isUnbroken_entries : ∀ entry ∈ entries, entry.1.1.IsUnbroken := by
  decide +kernel

theorem Token.countIn_eq {token : Token} (unbroken : token.IsUnbroken)
    (added : AddsReturns text other) : token.countIn other = token.countIn text := by
  cases token with
  | keyword word =>
      rw [Token.countIn, keywordCount, keywordCount, runsOf_eq (by decide) (by decide) added]
  | elseIf => exact elseIfCount_eq added
  | ternary => exact ternaryCount_eq added
  | pair sign =>
      obtain ⟨noFeed, noReturn⟩ := unbroken.ne (List.mem_singleton.mpr rfl)
      have feed : ('\n' == sign) = false := beq_eq_false_iff_ne.mpr noFeed.symm
      have ret : ('\r' == sign) = false := beq_eq_false_iff_ne.mpr noReturn.symm
      rw [Token.countIn, pairCount, pairCount, runsOf_eq feed ret added]

end Complexity

/-! Phrases -/

namespace Scan

open Catalog (securityPhrases performancePhrases)

variable {text other : List Char}

/-- The words of the phrase are not touched by line endings. -/
def Phrase.IsUnbroken (phrase : Phrase) : Prop :=
  ∀ word ∈ phrase.words, Text.IsUnbroken word.toList

instance : DecidablePred Phrase.IsUnbroken := fun phrase =>
  inferInstanceAs (Decidable (∀ word ∈ phrase.words, Text.IsUnbroken word.toList))

private theorem isUnbroken_phrases : ∀ entry ∈ securityPhrases ++ performancePhrases,
    ∀ phrase ∈ entry.2, Phrase.IsUnbroken phrase := by
  decide +kernel

theorem Phrase.IsUnbroken.head {part : Part} {phrase : Phrase}
    (unbroken : Phrase.IsUnbroken (part :: phrase)) : Phrase.IsUnbroken [part] := by
  intro word member
  cases part with
  | word text =>
      obtain rfl := List.mem_singleton.mp member
      exact unbroken _ List.mem_cons_self
  | gap => cases member
  | blanks => cases member
  | quoted => cases member

theorem Phrase.IsUnbroken.tail {part : Part} {phrase : Phrase}
    (unbroken : Phrase.IsUnbroken (part :: phrase)) : phrase.IsUnbroken := by
  intro word member
  cases part with
  | word => exact unbroken word (List.mem_cons_of_mem _ member)
  | gap => exact unbroken word member
  | blanks => exact unbroken word member
  | quoted => exact unbroken word member

theorem isUnbroken_quoteSign {c : Char} (sign : c ∈ quoteSigns) : Text.IsUnbroken [c] := by
  simp only [quoteSigns, List.mem_cons, List.not_mem_nil, or_false] at sign
  rcases sign with rfl | rfl <;> decide

/-- What fits a part still fits it with carriage returns. -/
theorem Part.Fits.addReturns {part : Part} {piece piece' : List Char} (fits : part.Fits piece)
    (unbroken : Phrase.IsUnbroken [part]) (added : AddsReturns piece piece') :
    part.Fits piece' := by
  cases fits with
  | @word word =>
      rw [added.eq_of_noFeed (unbroken word List.mem_cons_self).1]
      exact .word
  | gap within =>
      rw [added.eq_of_noFeed fun inside => within _ inside rfl]
      exact .gap within
  | blanks all => exact .blanks (added.forall_mem (fun _ => by decide) all)
  | @quoted opening closing inner openingSign some free closingSign =>
      rw [← List.singleton_append] at added
      obtain ⟨front, _, rfl, addedFront, addedBack⟩ := added.split_left
      obtain ⟨inner', last, rfl, addedInner, addedLast⟩ := addedBack.split_left
      rw [addedFront.eq_of_noFeed (isUnbroken_quoteSign openingSign).1,
        addedLast.eq_of_noFeed (isUnbroken_quoteSign closingSign).1]
      refine .quoted openingSign (fun empty => some (addedInner.nil_iff.mp empty)) ?_ closingSign
      exact addedInner.forall_mem (fun _ => by decide) free

/-- Where a part fits the second text, it fits the first. -/
theorem Part.Fits.dropReturns {part : Part} {piece' after' : List Char} (fits : part.Fits piece')
    (unbroken : Phrase.IsUnbroken [part]) (added : AddsReturns text (piece' ++ after')) :
    ∃ piece after, text = piece ++ after ∧ part.Fits piece ∧ AddsReturns after after' := by
  cases fits with
  | @word word =>
      obtain ⟨after, rfl, rest⟩ := added.split_word (unbroken word List.mem_cons_self)
      exact ⟨word.toList, after, rfl, .word, rest⟩
  | gap within =>
      obtain ⟨piece, after, rfl, rest, kept, _⟩ := added.split_right
      exact ⟨piece, after, rfl, .gap fun c member => within c (kept member), rest⟩
  | blanks all =>
      obtain ⟨piece, after, rfl, rest, kept, _⟩ := added.split_right
      exact ⟨piece, after, rfl, .blanks fun c member => all c (kept member), rest⟩
  | @quoted opening closing inner' openingSign some free closingSign =>
      rw [← List.singleton_append, List.append_assoc, List.append_assoc] at added
      obtain ⟨_, rfl, rest⟩ := added.split_word (isUnbroken_quoteSign openingSign)
      obtain ⟨inner, _, rfl, rest, kept, addedInner⟩ := rest.split_right
      obtain ⟨after, rfl, last⟩ := rest.split_word (isUnbroken_quoteSign closingSign)
      refine ⟨opening :: (inner ++ [closing]), after, by simp,
        .quoted openingSign ?_ ?_ closingSign, last⟩
      · -- the closing quote is no line feed, so no carriage return was dropped before it
        rcases addedInner with addedInner | ⟨_, feed⟩
        · exact fun empty => some (addedInner.nil_iff.mpr empty)
        · cases feed
          exact absurd closingSign (by decide)
      · exact fun c member => free c (kept member)

theorem Phrase.Fits.addReturns {phrase : Phrase} {piece piece' : List Char}
    (fits : phrase.Fits piece) (unbroken : phrase.IsUnbroken) (added : AddsReturns piece piece') :
    phrase.Fits piece' := by
  induction fits generalizing piece' with
  | nil =>
      cases added
      exact .nil
  | @cons part phrase _ _ first _ ih =>
      obtain ⟨_, _, rfl, addedFirst, addedRest⟩ := added.split_left
      exact .cons (first.addReturns unbroken.head addedFirst) (ih unbroken.tail addedRest)

theorem Phrase.Fits.dropReturns {phrase : Phrase} {piece' after' : List Char}
    (fits : phrase.Fits piece') (unbroken : phrase.IsUnbroken)
    (added : AddsReturns text (piece' ++ after')) :
    ∃ piece after, text = piece ++ after ∧ phrase.Fits piece := by
  induction fits generalizing text with
  | nil => exact ⟨[], text, rfl, .nil⟩
  | @cons part phrase _ _ first _ ih =>
      rw [List.append_assoc] at added
      obtain ⟨piece, _, rfl, fits, rest⟩ := first.dropReturns unbroken.head added
      obtain ⟨others, after, rfl, fitsOthers⟩ := ih unbroken.tail rest
      exact ⟨piece ++ others, after, (List.append_assoc ..).symm, .cons fits fitsOthers⟩

theorem Phrase.occursIn_iff_of_addsReturns {phrase : Phrase} (unbroken : phrase.IsUnbroken)
    (added : AddsReturns text other) : phrase.OccursIn other ↔ phrase.OccursIn text := by
  constructor
  · intro occurs
    obtain ⟨piece', ⟨before', after', rfl⟩, fits⟩ := occurs
    rw [List.append_assoc] at added
    obtain ⟨before, _, rfl, rest, _⟩ := added.split_right
    obtain ⟨piece, after, rfl, fits⟩ := fits.dropReturns unbroken rest
    exact ⟨piece, ⟨before, after, List.append_assoc ..⟩, fits⟩
  · intro occurs
    obtain ⟨piece, ⟨before, after, rfl⟩, fits⟩ := occurs
    rw [List.append_assoc] at added
    obtain ⟨before', _, rfl, _, addedRest⟩ := added.split_left
    obtain ⟨piece', after', rfl, addedPiece, _⟩ := addedRest.split_left
    exact ⟨piece', ⟨before', after', List.append_assoc ..⟩, fits.addReturns unbroken addedPiece⟩

end Scan

/-! Keywords -/

theorem Catalog.isUnbroken_keywords : ∀ fingerprint ∈ Catalog.builtin.fingerprints,
    ∀ keyword ∈ fingerprint.keywords, keyword.toList ≠ [] ∧ IsUnbroken keyword.toList := by
  rw [fingerprints_builtin]
  decide +kernel

theorem Agrees.of_addsReturns {text other : List Char} (added : AddsReturns text other) :
    Agrees text other where
  tokens := fun entry member =>
    Complexity.Token.countIn_eq (Complexity.isUnbroken_entries entry member) added
  phrases := fun entry member phrase inside =>
    Scan.Phrase.occursIn_iff_of_addsReturns (Scan.isUnbroken_phrases entry member phrase inside)
      added
  keywords := fun fingerprint member keyword inside => by
    obtain ⟨nonempty, unbroken⟩ := Catalog.isUnbroken_keywords fingerprint member keyword inside
    have lowered : AddsReturns (Text.asciiLower text) (Text.asciiLower other) :=
      added.map (by decide) (by decide)
    exact lowered.countOccurrences_eq nonempty unbroken

/-! Smells -/

namespace Smell

variable {text other : List Char}

theorem mostParameters_eq (added : AddsReturns text other) :
    mostParameters other = mostParameters text := by
  have alike : ∀ scan : GroupScan,
      other.foldl GroupScan.step scan = text.foldl GroupScan.step scan := by
    induction added with
    | nil => exact fun scan => rfl
    | @keep c _ _ _ ih => exact fun scan => ih (scan.step c)
    | insert _ ih =>
        intro scan
        have passed : scan.step '\r' = scan := by
          unfold GroupScan.step
          split <;> rfl
        rw [List.foldl_cons, List.foldl_cons, List.foldl_cons, passed]
        exact ih _
  rw [mostParameters, mostParameters, alike]

private theorem deepestNesting_eq (added : AddsReturns text other) :
    deepestNesting other = deepestNesting text := by
  have alike : ∀ scan : DepthScan,
      (Text.lines other).foldl DepthScan.step scan =
        (Text.lines text).foldl DepthScan.step scan := by
    have related := added.forall₂_lines
    generalize Text.lines text = first, Text.lines other = second at related ⊢
    induction related with
    | nil => exact fun scan => rfl
    | @cons line line' _ _ same _ ih =>
        intro scan
        have change : depthChange line' = depthChange line := by
          rcases same with rfl | rfl
          · rfl
          · simp [depthChange]
        rw [List.foldl_cons, List.foldl_cons, ih, DepthScan.step, DepthScan.step, change]
  rw [deepestNesting, deepestNesting, alike]

end Smell

namespace Audit

/-- With the built-in catalog, a text and the same text with a carriage return before every line
feed have the same complexity counts, findings of the two scans, keyword votes, language, lines and
lines that are not blank, parameters and nesting. -/
theorem ofText_withReturns (rules : Rules) (hint text : String) :
    let chars := text.toList
    let returned := Text.withReturns chars
    let plain := ofText .builtin rules hint text
    let other := ofText .builtin rules hint (String.ofList returned)
    Complexity.counts .builtin returned = Complexity.counts .builtin chars ∧
    other.security = plain.security ∧
    other.performance = plain.performance ∧
    Detection.scores .builtin returned = Detection.scores .builtin chars ∧
    other.metrics.detectedLanguage = plain.metrics.detectedLanguage ∧
    other.metrics.lines = plain.metrics.lines ∧
    other.metrics.solidLines = plain.metrics.solidLines ∧
    Smell.mostParameters returned = Smell.mostParameters chars ∧
    Smell.deepestNesting returned = Smell.deepestNesting chars := by
  intro chars returned plain other
  have added : AddsReturns chars returned := Text.addsReturns_withReturns chars
  have agrees := Agrees.of_addsReturns added
  simp only [plain, other, ofText, Metrics.measure, Metrics.lineCount, String.toList_ofList]
  exact ⟨agrees.counts_eq, agrees.security_eq, agrees.performance_eq, agrees.scores_eq,
    agrees.language_eq, added.length_lines, added.length_solidLines, Smell.mostParameters_eq added,
    Smell.deepestNesting_eq added⟩

end Audit

end SnippetAudit
