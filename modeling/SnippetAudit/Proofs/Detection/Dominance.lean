import SnippetAudit.Proofs.Audit.Agreement
import SnippetAudit.Proofs.Detection.Leader
import SnippetAudit.Proofs.Detection.Votes
import SnippetAudit.Proofs.Entries
import SnippetAudit.Proofs.Text.Signs

/-!
Languages of the built-in catalog that others dominate.

Every keyword for HTML contains a `<`, which votes for XML, as `>` does. The keywords for CSS are
braces, which vote for JSON as well, and four others, of which two contain a colon, which votes for
JSON. So these two languages are chosen only for texts without the signs that vote for their rivals
alone, or with enough of the keywords that are their own.
-/

set_option autoImplicit false

namespace SnippetAudit.Detection

open Text (asciiLower countOccurrences placesOf)

/-! The language with the most votes -/

theorem Leads.le {scores : List (String × Nat)} {place : Nat} {entry : String × Nat}
    (leads : Leads scores place entry) {score : String × Nat} (member : score ∈ scores) :
    score.2 ≤ entry.2 := by
  obtain ⟨other, stands⟩ := List.getElem?_of_mem member
  rcases Nat.lt_trichotomy other place with before | rfl | behind
  · exact (leads.earlier other score before stands).le
  · rw [leads.stands] at stands
    exact (congrArg Prod.snd (Option.some.inj stands)).ge
  · exact leads.later other score behind stands

/-- A language that was chosen has no rival with more votes, if no language stands twice in the
catalog. -/
theorem votes_le_of_language {catalog : Catalog} {text : List Char}
    (distinct : ((scores catalog text).map Prod.fst).Nodup) {label rival : String}
    (chosen : language catalog text = label) (candidate : label ≠ fallback) {own other : Nat}
    (ownVotes : (scores catalog text).lookup label = some own)
    (otherVotes : (scores catalog text).lookup rival = some other) : other ≤ own := by
  rcases language_cases catalog text with ⟨_, nobody⟩ | ⟨place, entry, leads, leader⟩
  · exact absurd (chosen.symm.trans nobody) candidate
  · have same : entry = (label, own) :=
      List.inj_on_of_nodup_map distinct (List.mem_of_getElem? leads.stands)
        (mem_of_lookup_eq_some ownVotes) (leader.symm.trans chosen)
    have most := leads.le (mem_of_lookup_eq_some otherVotes)
    rwa [same] at most

/-! The built-in fingerprints -/

/-- The votes of a keyword. -/
def keywordVotes (keyword : String) (text : List Char) : Nat :=
  countOccurrences (asciiLower keyword.toList) (asciiLower text)

/-- The votes of some keywords. -/
def votesOf (keywords : List String) (text : List Char) : Nat :=
  (keywords.map fun keyword => keywordVotes keyword text).sum

theorem votesOf_nil (text : List Char) : votesOf [] text = 0 := rfl

theorem votesOf_cons (keyword : String) (keywords : List String) (text : List Char) :
    votesOf (keyword :: keywords) text = keywordVotes keyword text + votesOf keywords text := rfl

private theorem scores_builtin (text : List Char) :
    scores .builtin text =
      Catalog.Builtin.fingerprints.map fun entry => (entry.1, votesOf entry.2 text) := by
  rw [scores, Catalog.fingerprints_builtin, List.map_map]
  apply List.map_congr_left
  intro entry _
  rw [Function.comp_apply, votes_eq_sum, Catalog.readFingerprint, List.map_map]
  simp only [Function.comp_def, String.toList_ofList]
  rfl

private theorem nodup_languages_builtin (text : List Char) :
    ((scores .builtin text).map Prod.fst).Nodup := by
  rw [scores_builtin, List.map_map]
  change (Catalog.Builtin.fingerprints.map Prod.fst).Nodup
  decide +kernel

theorem lookup_scores_builtin (label : String) {keywords : List String}
    (known : Catalog.Builtin.fingerprints.lookup label = some keywords) (text : List Char) :
    (scores .builtin text).lookup label = some (votesOf keywords text) := by
  obtain ⟨before, after, split, others⟩ := List.lookup_eq_some_iff.mp known
  rw [scores_builtin, split, List.map_append, List.map_cons]
  refine List.lookup_eq_some_iff.mpr ⟨_, _, rfl, fun entry member => ?_⟩
  obtain ⟨source, inside, rfl⟩ := List.mem_map.mp member
  exact others source inside

/-! Keywords and signs -/

private theorem keywordVotes_sign {keyword : String} {sign : Char}
    (single : keyword.toList = [sign]) (noLetter : sign.isAlpha = false) (text : List Char) :
    keywordVotes keyword text = text.count sign := by
  rw [keywordVotes, single, Text.countOccurrences_sign noLetter]

private theorem keywordVotes_le_card {keyword : String} (nonempty : keyword ≠ "")
    (text : List Char) : keywordVotes keyword text ≤ (placesOf keyword.toList text).card :=
  Text.countOccurrences_le_card_placesOf (toList_ne_nil nonempty) text

/-- Keywords that contain a sign and clash around it have no more votes than the sign. -/
theorem votesOf_le_count {sign : Char} (noLetter : sign.isAlpha = false) (offset : String → Nat)
    {keywords : List String}
    (holds : ∀ keyword ∈ keywords, (asciiLower keyword.toList)[offset keyword]? = some sign)
    (clash : (keywords.map fun keyword =>
      (asciiLower keyword.toList, offset keyword)).Pairwise Text.Clash)
    (text : List Char) : votesOf keywords text ≤ text.count sign := by
  have anchored : ∀ entry ∈ keywords.map fun keyword =>
      (asciiLower keyword.toList, offset keyword), entry.1[entry.2]? = some sign := by
    intro entry member
    obtain ⟨keyword, inside, rfl⟩ := List.mem_map.mp member
    exact holds keyword inside
  have bound := Text.sum_countOccurrences_le_count anchored clash (asciiLower text)
  rwa [List.map_map, Text.count_asciiLower noLetter] at bound

/-- The keywords for HTML start with a `<` and differ behind it. -/
theorem votesOf_tags_le (text : List Char) :
    votesOf ["<!DOCTYPE", "<html", "<div", "<script"] text ≤ text.count '<' :=
  votesOf_le_count (by decide) (fun _ => 0) (by decide +kernel) (by decide +kernel) text

/-- Two keywords for CSS end in a colon and differ in front of it. -/
theorem votesOf_properties_le (text : List Char) :
    votesOf ["margin:", "padding:"] text ≤ text.count ':' :=
  votesOf_le_count (by decide) (fun keyword => keyword.toList.length - 1) (by decide +kernel)
    (by decide +kernel) text

private theorem html_add_le_xml (text : List Char) :
    votesOf ["<!DOCTYPE", "<html", "<div", "<script"] text + text.count '>' ≤
      votesOf ["<?xml", "<", "</", ">"] text := by
  have tags := votesOf_tags_le text
  have opening : keywordVotes "<" text = text.count '<' := keywordVotes_sign rfl (by decide) text
  have closing : keywordVotes ">" text = text.count '>' := keywordVotes_sign rfl (by decide) text
  simp only [votesOf_cons, votesOf_nil] at tags ⊢
  omega

private theorem css_add_le_json (text : List Char) :
    votesOf ["\x7b", "\x7d", "margin:", "padding:", ".class", "#id"] text +
        (text.count '"' + text.count '[' + text.count ']') ≤
      votesOf ["\x7b", "\x7d", "\"", ":", "[", "]"] text +
        ((placesOf ".class".toList text).card + (placesOf "#id".toList text).card) := by
  have properties := votesOf_properties_le text
  have classes := keywordVotes_le_card (by decide : ".class" ≠ "") text
  have ids := keywordVotes_le_card (by decide : "#id" ≠ "") text
  have quote : keywordVotes "\"" text = text.count '"' := keywordVotes_sign rfl (by decide) text
  have colon : keywordVotes ":" text = text.count ':' := keywordVotes_sign rfl (by decide) text
  have left : keywordVotes "[" text = text.count '[' := keywordVotes_sign rfl (by decide) text
  have right : keywordVotes "]" text = text.count ']' := keywordVotes_sign rfl (by decide) text
  simp only [votesOf_cons, votesOf_nil] at properties ⊢
  omega

/-- XML has the votes for HTML and one more for each `>`, so a text with a `>` is never taken for
HTML. JSON has the votes for CSS and those of its own signs, if `.class` and `#id` are left aside,
so only a text in which these two are no rarer than the signs is taken for CSS. -/
theorem html_and_css_dominated (text : List Char) :
    ∃ html xml css json,
      (scores .builtin text).lookup "html" = some html ∧
      (scores .builtin text).lookup "xml" = some xml ∧
      (scores .builtin text).lookup "css" = some css ∧
      (scores .builtin text).lookup "json" = some json ∧
      html + text.count '>' ≤ xml ∧
      ('>' ∈ text → language .builtin text ≠ "html") ∧
      css + (text.count '"' + text.count '[' + text.count ']') ≤
        json + ((placesOf ".class".toList text).card + (placesOf "#id".toList text).card) ∧
      (language .builtin text = "css" →
        text.count '"' + text.count '[' + text.count ']' ≤
          (placesOf ".class".toList text).card + (placesOf "#id".toList text).card) := by
  have html := lookup_scores_builtin "html" rfl text
  have xml := lookup_scores_builtin "xml" rfl text
  have css := lookup_scores_builtin "css" rfl text
  have json := lookup_scores_builtin "json" rfl text
  have distinct := nodup_languages_builtin text
  have tags := html_add_le_xml text
  have rules := css_add_le_json text
  refine ⟨_, _, _, _, html, xml, css, json, tags, ?_, rules, ?_⟩
  · intro member chosen
    have most := votes_le_of_language distinct chosen (by decide) html xml
    have positive := List.count_pos_iff.mpr member
    omega
  · intro chosen
    have most := votes_le_of_language distinct chosen (by decide) css json
    omega

/-- A tag is not taken for HTML, and a rule for a class is taken for CSS. -/
theorem html_and_css_dominated_tag_and_rule :
    ('>' ∈ "<DIV>".toList ∧ language .builtin "<DIV>".toList ≠ "html") ∧
    language .builtin ".Class\x7b[\x7d".toList = "css" ∧
    ".Class\x7b[\x7d".toList.count '"' + ".Class\x7b[\x7d".toList.count '[' +
        ".Class\x7b[\x7d".toList.count ']' ≤
      (placesOf ".class".toList ".Class\x7b[\x7d".toList).card +
        (placesOf "#id".toList ".Class\x7b[\x7d".toList).card := by
  have tag : '>' ∈ "<DIV>".toList := by decide
  have rule : language .builtin ".Class\x7b[\x7d".toList = "css" := by
    rw [language, scores_builtin]
    decide +kernel
  obtain ⟨_, _, _, _, _, _, _, _, _, noHtml, _, _⟩ := html_and_css_dominated "<DIV>".toList
  obtain ⟨_, _, _, _, _, _, _, _, _, _, _, enough⟩ :=
    html_and_css_dominated ".Class\x7b[\x7d".toList
  exact ⟨⟨tag, noHtml tag⟩, rule, enough rule⟩

end SnippetAudit.Detection
