import SnippetAudit.Catalog.Basic
import SnippetAudit.Text.Occurrences

/-!
Which language a text is in: the one whose keywords occur most often.
-/

set_option autoImplicit false

namespace SnippetAudit.Detection

/-- The votes for a language: the occurrences of all its keywords. `lowered` is the text in lower
case. -/
def votes (fingerprint : Fingerprint) (lowered : List Char) : Nat :=
  fingerprint.keywords.foldl
    (fun total keyword => total + Text.countOccurrences keyword.toList lowered) 0

/-- The votes for every language, in the order of the catalog. -/
def scores (catalog : Catalog) (text : List Char) : List (String × Nat) :=
  let lowered := Text.asciiLower text
  catalog.fingerprints.map fun fingerprint => (fingerprint.language, votes fingerprint lowered)

/-- The better of the best so far and a candidate: more votes are needed to take over, and at least
one to start. -/
def better (best : Option (String × Nat)) (candidate : String × Nat) : Option (String × Nat) :=
  if (best.map Prod.snd).getD 0 < candidate.2 then some candidate else best

/-- The name for a text that no keyword votes on. -/
def fallback : String := "text"

/-- The language with the most votes, the first one of several. -/
def language (catalog : Catalog) (text : List Char) : String :=
  match (scores catalog text).foldl better none with
  | some (label, _) => label
  | none => fallback

end SnippetAudit.Detection
