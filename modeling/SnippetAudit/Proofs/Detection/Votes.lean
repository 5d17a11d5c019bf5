import Mathlib.Algebra.Order.BigOperators.Group.List
import SnippetAudit.Detection
import SnippetAudit.Proofs.Catalog.Reading
import SnippetAudit.Proofs.Text.Letters
import SnippetAudit.Proofs.Text.Packing

/-!
What the votes for a language count.

Each keyword gives as many votes as it has occurrences without overlap at most. So joining two texts
loses no vote and adds at most one for each keyword.
-/

set_option autoImplicit false

namespace SnippetAudit.Detection

open Text (OccursAt apartCounts asciiLower countOccurrences)

theorem votes_eq_sum (fingerprint : Fingerprint) (lowered : List Char) :
    votes fingerprint lowered =
      (fingerprint.keywords.map fun keyword => countOccurrences keyword.toList lowered).sum := by
  rw [votes, List.sum_eq_foldl, List.foldl_map]

theorem getElem?_scores {catalog : Catalog} {place : Nat} {fingerprint : Fingerprint}
    (stands : catalog.fingerprints[place]? = some fingerprint) (text : List Char) :
    (scores catalog text)[place]? =
      some (fingerprint.language, votes fingerprint (asciiLower text)) := by
  rw [scores, List.getElem?_map, stands, Option.map_some]

/-! Keywords -/

private theorem asciiLower_asciiLower (text : List Char) :
    asciiLower (asciiLower text) = asciiLower text := by
  rw [asciiLower, asciiLower, List.map_map]
  exact List.map_congr_left fun c _ => Text.toLower_toLower c

/-- The keywords of a catalog that was read are in lower case. -/
theorem asciiLower_keyword {tables : Tables} {catalog : Catalog}
    (read : Catalog.ofTables tables = .ok catalog) {fingerprint : Fingerprint}
    (member : fingerprint ∈ catalog.fingerprints) {keyword : String}
    (inside : keyword ∈ fingerprint.keywords) :
    asciiLower keyword.toList = keyword.toList := by
  rw [← (Catalog.compile_eq_ok_iff.mp read).2.2.2.2] at member
  obtain ⟨entry, _, rfl⟩ := List.mem_map.mp member
  obtain ⟨word, _, rfl⟩ := List.mem_map.mp inside
  rw [String.toList_ofList, asciiLower_asciiLower]

theorem toList_ne_nil {keyword : String} (nonempty : keyword ≠ "") : keyword.toList ≠ [] := by
  intro empty
  exact nonempty (String.toList_inj.mp empty)

/-! Joined texts -/

private theorem add_le_votes_append {fingerprint : Fingerprint}
    (worded : ∀ keyword ∈ fingerprint.keywords, keyword ≠ "") (first second : List Char) :
    votes fingerprint first + votes fingerprint second ≤ votes fingerprint (first ++ second) := by
  rw [votes_eq_sum, votes_eq_sum, votes_eq_sum, ← List.sum_map_add]
  apply List.sum_le_sum
  intro keyword inside
  exact Text.add_le_countOccurrences_append (toList_ne_nil (worded keyword inside)) first second

private theorem votes_append_le {fingerprint : Fingerprint}
    (worded : ∀ keyword ∈ fingerprint.keywords, keyword ≠ "") (first second : List Char) :
    votes fingerprint (first ++ second) ≤
      votes fingerprint first + votes fingerprint second + fingerprint.keywords.length := by
  have ones : (fingerprint.keywords.map fun _ => 1).sum = fingerprint.keywords.length := by simp
  rw [votes_eq_sum, votes_eq_sum, votes_eq_sum, ← ones, ← List.sum_map_add, ← List.sum_map_add]
  apply List.sum_le_sum
  intro keyword inside
  exact Text.countOccurrences_append_le (toList_ne_nil (worded keyword inside)) first second

/-- The votes for a language are the greatest numbers of occurrences of its keywords without
overlap, added up. Votes for two texts are kept when the texts are joined, and at most one vote for
each keyword is new. -/
theorem scores_most_apart {tables : Tables} {catalog : Catalog}
    (read : Catalog.ofTables tables = .ok catalog) {place : Nat} {fingerprint : Fingerprint}
    (stands : catalog.fingerprints[place]? = some fingerprint)
    (worded : ∀ keyword ∈ fingerprint.keywords, keyword ≠ "") :
    (∀ text, ∃ counts,
      List.Forall₂
        (fun keyword count =>
          IsGreatest (apartCounts keyword.toList.length (OccursAt keyword.toList text)) count)
        fingerprint.keywords counts ∧
      (scores catalog text)[place]? = some (fingerprint.language, counts.sum)) ∧
    ∀ first second, ∃ votesFirst votesSecond votesBoth,
      (scores catalog first)[place]? = some (fingerprint.language, votesFirst) ∧
      (scores catalog second)[place]? = some (fingerprint.language, votesSecond) ∧
      (scores catalog (first ++ second))[place]? = some (fingerprint.language, votesBoth) ∧
      votesFirst + votesSecond ≤ votesBoth ∧
      votesBoth ≤ votesFirst + votesSecond + fingerprint.keywords.length := by
  constructor
  · intro text
    refine ⟨_, ?_, (getElem?_scores stands text).trans (by rw [votes_eq_sum])⟩
    rw [List.forall₂_map_right_iff, List.forall₂_same]
    intro keyword inside
    have greatest := Text.isGreatest_countOccurrences_asciiLower
      (toList_ne_nil (worded keyword inside)) text
    rwa [asciiLower_keyword read (List.mem_of_getElem? stands) inside] at greatest
  · intro first second
    refine ⟨_, _, _, getElem?_scores stands first, getElem?_scores stands second,
      getElem?_scores stands (first ++ second), ?_, ?_⟩
    · rw [Text.asciiLower_append]
      exact add_le_votes_append worded _ _
    · rw [Text.asciiLower_append]
      exact votes_append_le worded _ _

/-- Occurrences that overlap, in both cases, and one that only joining the texts brings about. -/
theorem scores_most_apart_overlapping :
    ∃ catalog fingerprint,
      Catalog.ofTables { fingerprints := [("delta", ["ABA", "aa"])] } = .ok catalog ∧
      catalog.fingerprints[0]? = some fingerprint ∧ fingerprint.keywords = ["aba", "aa"] ∧
      (∃ counts,
        List.Forall₂
          (fun keyword count =>
            IsGreatest (apartCounts keyword.toList.length
              (OccursAt keyword.toList ['a', 'b', 'a', 'B', 'A', 'A', 'a'])) count)
          ["aba", "aa"] counts ∧
        counts.sum = 2) ∧
      ∃ both, (scores catalog (['a'] ++ ['A']))[0]? = some (fingerprint.language, both) ∧
        0 + 0 ≤ both ∧ both ≤ 0 + 0 + 2 := by
  obtain ⟨catalog, fingerprint, read, stands, keywords, votesOverlapping, votesLetter⟩ :
      ∃ catalog fingerprint,
        Catalog.ofTables { fingerprints := [("delta", ["ABA", "aa"])] } = .ok catalog ∧
        catalog.fingerprints[0]? = some fingerprint ∧ fingerprint.keywords = ["aba", "aa"] ∧
        votes fingerprint (asciiLower ['a', 'b', 'a', 'B', 'A', 'A', 'a']) = 2 ∧
        votes fingerprint ['a'] = 0 :=
    ⟨_, Catalog.readFingerprint ("delta", ["ABA", "aa"]), rfl, rfl, by decide +kernel,
      by decide +kernel, by decide +kernel⟩
  have worded : ∀ keyword ∈ fingerprint.keywords, keyword ≠ "" := by
    rw [keywords]
    decide
  obtain ⟨most, joined⟩ := scores_most_apart read stands worded
  refine ⟨catalog, fingerprint, read, stands, keywords, ?_, ?_⟩
  · obtain ⟨counts, each, scored⟩ := most ['a', 'b', 'a', 'B', 'A', 'A', 'a']
    rw [getElem?_scores stands, votesOverlapping] at scored
    rw [keywords] at each
    exact ⟨counts, each, (congrArg Prod.snd (Option.some.inj scored)).symm⟩
  · obtain ⟨first, second, both, firstVotes, secondVotes, bothVotes, least, greatest⟩ :=
      joined ['a'] ['A']
    rw [getElem?_scores stands] at firstVotes secondVotes
    have noneFirst : votes fingerprint ['a'] = first :=
      congrArg Prod.snd (Option.some.inj firstVotes)
    have noneSecond : votes fingerprint ['a'] = second :=
      congrArg Prod.snd (Option.some.inj secondVotes)
    rw [keywords] at greatest
    rw [votesLetter] at noneFirst noneSecond
    subst noneFirst noneSecond
    exact ⟨both, bothVotes, least, greatest⟩

end SnippetAudit.Detection
