/-!
Findings: what an audit reports about a text.
-/

set_option autoImplicit false

namespace SnippetAudit

/-- How serious a finding is. -/
inductive Severity where
  | high
  | medium
  | low
  deriving DecidableEq, Repr

def Severity.word : Severity → String
  | .high => "high"
  | .medium => "medium"
  | .low => "low"

def Severity.ofWord? (word : String) : Option Severity :=
  if word = "high" then some .high
  else if word = "medium" then some .medium
  else if word = "low" then some .low
  else none

/-- A reported issue. -/
structure Finding where
  category : String
  severity : Severity
  description : String
  deriving DecidableEq, Repr

end SnippetAudit
