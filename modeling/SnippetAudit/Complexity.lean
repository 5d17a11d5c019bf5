import SnippetAudit.Catalog.Basic

/-!
The complexity score: one, plus the weight of every control-flow word in the text.
-/

set_option autoImplicit false

namespace SnippetAudit.Complexity

/-- The score of a text without control flow. -/
def base : Float := 1.0

/-- How often each pattern of the catalog occurs, in the order of the catalog. -/
def counts (catalog : Catalog) (text : List Char) : List Nat :=
  catalog.complexity.map fun weighted => weighted.pattern.count text

/-- Two decimals, a half away from zero. -/
def roundToHundredths (x : Float) : Float :=
  (x * 100.0).round / 100.0

/-- The score of a text. -/
def score (catalog : Catalog) (text : List Char) : Float :=
  roundToHundredths
    ((catalog.complexity.zip (counts catalog text)).foldl
      (fun total (weighted, count) => total + Float.ofNat count * weighted.weight) base)

end SnippetAudit.Complexity
