import SnippetAudit.Detection
import SnippetAudit.Proofs.Complexity.Reference
import SnippetAudit.Proofs.Scan.Reference

/-!
Texts that the built-in catalog cannot tell apart: they have the same tokens, phrases and keywords,
so they are counted, scanned and classified alike.
-/

set_option autoImplicit false

namespace SnippetAudit

open Catalog (securityPhrases performancePhrases)
open Scan (Phrase)

/-- The texts have the same tokens, phrases and keywords. -/
structure Agrees (text other : List Char) : Prop where
  tokens : ∀ entry ∈ Complexity.entries, entry.1.1.countIn other = entry.1.1.countIn text
  phrases : ∀ entry ∈ securityPhrases ++ performancePhrases, ∀ phrase ∈ entry.2,
    Phrase.OccursIn phrase other ↔ Phrase.OccursIn phrase text
  keywords : ∀ fingerprint ∈ Catalog.builtin.fingerprints, ∀ keyword ∈ fingerprint.keywords,
    Text.countOccurrences keyword.toList (Text.asciiLower other) =
      Text.countOccurrences keyword.toList (Text.asciiLower text)

theorem Catalog.fingerprints_builtin :
    Catalog.builtin.fingerprints = Catalog.Builtin.fingerprints.map Catalog.readFingerprint :=
  (compile_eq_ok_iff.mp compile_builtin).2.2.2.2.symm

theorem Scan.expected_congr {entries : List (Finding × List Phrase)} {text other : List Char}
    (same : ∀ entry ∈ entries, ∀ phrase ∈ entry.2,
      Phrase.OccursIn phrase other ↔ Phrase.OccursIn phrase text) :
    expected entries other = expected entries text := by
  rw [expected, expected, List.flatMap_def, List.flatMap_def]
  congr 1
  apply List.map_congr_left
  intro entry member
  have hits : (entry.2.countP fun phrase => phrase.OccursIn other) =
      entry.2.countP fun phrase => phrase.OccursIn text := by
    apply List.countP_congr
    intro phrase inside
    rw [decide_eq_true_iff, decide_eq_true_iff]
    exact same entry member phrase inside
  rw [hits]

theorem Detection.votes_congr {fingerprint : Fingerprint} {text other : List Char}
    (same : ∀ keyword ∈ fingerprint.keywords,
      Text.countOccurrences keyword.toList other = Text.countOccurrences keyword.toList text) :
    votes fingerprint other = votes fingerprint text := by
  apply List.foldl_ext
  intro total keyword member
  rw [same keyword member]

namespace Agrees

variable {text other : List Char} (agrees : Agrees text other)
include agrees

theorem counts_eq : Complexity.counts .builtin other = Complexity.counts .builtin text := by
  rw [Complexity.counts_builtin, Complexity.counts_builtin]
  exact List.map_congr_left agrees.tokens

theorem security_eq : Scan.security .builtin other = Scan.security .builtin text := by
  rw [Scan.security_eq_expected, Scan.security_eq_expected]
  apply Scan.expected_congr
  intro entry member
  exact agrees.phrases entry (List.mem_append_left _ member)

theorem performance_eq : Scan.performance .builtin other = Scan.performance .builtin text := by
  rw [Scan.performance_eq_expected, Scan.performance_eq_expected]
  apply Scan.expected_congr
  intro entry member
  exact agrees.phrases entry (List.mem_append_right _ member)

theorem scores_eq : Detection.scores .builtin other = Detection.scores .builtin text := by
  rw [Detection.scores, Detection.scores]
  apply List.map_congr_left
  intro fingerprint member
  rw [Detection.votes_congr (agrees.keywords fingerprint member)]

theorem language_eq : Detection.language .builtin other = Detection.language .builtin text := by
  rw [Detection.language, Detection.language, agrees.scores_eq]

end Agrees

end SnippetAudit
