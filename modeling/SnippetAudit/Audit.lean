import SnippetAudit.Complexity
import SnippetAudit.Detection
import SnippetAudit.Language
import SnippetAudit.Scan
import SnippetAudit.Score
import SnippetAudit.Smell

/-!
Audits: everything that is found out about one text.
-/

set_option autoImplicit false

namespace SnippetAudit

/-- The outcome of an audit. -/
structure Audit where
  score : Score
  security : List Finding
  performance : List Finding
  smells : List Finding
  metrics : Metrics

namespace Audit

/-- Audits a text. The hint selects the patterns that names are found with; the detected language
is only reported. -/
def ofText (catalog : Catalog) (rules : Rules) (hint text : String) : Audit :=
  let language := Language.ofHint hint
  let chars := text.toList
  { score := .ofFloat (Complexity.score catalog chars)
    security := Scan.security catalog chars
    performance := Scan.performance catalog chars
    smells := Smell.findings catalog rules language chars
    metrics :=
      { Metrics.measure catalog language chars with
        detectedLanguage := Detection.language catalog chars } }

/-- The number of findings of all three kinds. -/
def totalFindings (audit : Audit) : Nat :=
  audit.security.length + audit.performance.length + audit.smells.length

def hasNoFindings (audit : Audit) : Bool :=
  audit.totalFindings = 0

def hasSecurityFinding (audit : Audit) : Bool :=
  !audit.security.isEmpty

end Audit

end SnippetAudit
