import SnippetAudit.Finding
import SnippetAudit.Metrics
import SnippetAudit.Rules

/-!
Smells: five checks of a text against thresholds, in a fixed order, each with one finding at most.
-/

set_option autoImplicit false

namespace SnippetAudit.Smell

/-! Parameters -/

/-- A scan for parenthesised groups: the segments of the group that is open, if there is one, and
the most segments of a closed group. -/
structure GroupScan where
  segments : Option Nat := none
  most : Nat := 0

/-- A group runs from an opening parenthesis to the first closing one after it; commas divide it
into segments. -/
def GroupScan.step (scan : GroupScan) (c : Char) : GroupScan :=
  match scan.segments with
  | none => if c = '(' then { scan with segments := some 1 } else scan
  | some segments =>
      if c = ')' then { segments := none, most := max scan.most segments }
      else if c = ',' then { scan with segments := some (segments + 1) }
      else scan

/-- The most segments of any parenthesised group, zero if there is none. -/
def mostParameters (text : List Char) : Nat :=
  (text.foldl GroupScan.step {}).most

/-! Nesting -/

/-- By how much a line changes the brace depth. -/
def depthChange (line : List Char) : Int :=
  (line.count '\x7b' : Int) - line.count '\x7d'

/-- The depth behind the lines read, and the greatest depth at a line end. -/
structure DepthScan where
  depth : Int := 0
  deepest : Int := 0

def DepthScan.step (scan : DepthScan) (line : List Char) : DepthScan :=
  let depth := scan.depth + depthChange line
  { depth, deepest := max scan.deepest depth }

/-- The greatest brace depth at the end of a line, at least zero. -/
def deepestNesting (text : List Char) : Nat :=
  ((Text.lines text).foldl DepthScan.step {}).deepest.toNat

/-! Duplicates -/

/-- Whether some item comes again later. -/
def hasRepeat : List (List Char) → Bool
  | [] => false
  | item :: rest => rest.contains item || hasRepeat rest

/-- Whether two lines that are not blank are equal. -/
def repeatsLines (text : List Char) : Bool :=
  hasRepeat (Text.solidLines text)

/-! Findings -/

def finding (category check : String) : Finding where
  category
  severity := .medium
  description := "Detected " ++ category ++ ": \"" ++ check ++ "\""

/-- The five checks of a text, with whether they flag it. -/
def checks (catalog : Catalog) (rules : Rules) (language : String) (text : List Char) :
    List (Finding × Bool) :=
  [(finding "Long Method" "lines", rules.longMethodLines < Metrics.lineCount text),
   (finding "Large Class" "classes",
    rules.maxClasses < (Metrics.namesIn catalog .classes language text).length),
   (finding "Too Many Parameters" "params", rules.maxParameters < mostParameters text),
   (finding "Deep Nesting" "nesting", rules.maxNestingDepth < deepestNesting text),
   (finding "Duplicate Code" "duplicates", repeatsLines text)]

/-- The findings of the checks that flag the text. -/
def findings (catalog : Catalog) (rules : Rules) (language : String) (text : List Char) :
    List Finding :=
  (checks catalog rules language text).filterMap fun (found, flagged) =>
    if flagged then some found else none

end SnippetAudit.Smell
