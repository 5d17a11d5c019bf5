import SnippetAudit.Catalog.Basic
import SnippetAudit.Finding
import SnippetAudit.Text.Casing

/-!
Scanning for security and performance issues: one finding for every pattern that occurs, however
often it does, in the order of the catalog.
-/

set_option autoImplicit false

namespace SnippetAudit.Scan

/-- How many patterns of a category occur in the text. -/
def hits (category : Category) (text : List Char) : Nat :=
  category.patterns.countP fun pattern => pattern.occursIn text

def securityFinding (category : String) : Finding where
  category
  severity := .high
  description := "Potential " ++ category ++ " vulnerability detected"

def performanceFinding (category : String) : Finding where
  category
  severity := .medium
  description := "Consider optimizing " ++ String.ofList (Text.lowercase category.toList)

/-- The findings of all categories. -/
def findings (categories : List Category) (finding : String → Finding) (text : List Char) :
    List Finding :=
  categories.flatMap fun category =>
    List.replicate (hits category text) (finding category.name)

def security (catalog : Catalog) (text : List Char) : List Finding :=
  findings catalog.security securityFinding text

def performance (catalog : Catalog) (text : List Char) : List Finding :=
  findings catalog.performance performanceFinding text

end SnippetAudit.Scan
