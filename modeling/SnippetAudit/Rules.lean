/-!
The thresholds of the smell checks.
-/

set_option autoImplicit false

namespace SnippetAudit

/-- A check flags what is above its threshold. -/
structure Rules where
  longMethodLines : Nat := 50
  maxClasses : Nat := 10
  maxParameters : Nat := 7
  maxNestingDepth : Nat := 5
  deriving DecidableEq, Repr

end SnippetAudit
