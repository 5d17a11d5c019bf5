import SnippetAudit.Audit
import SnippetAudit.Stored.Column

/-!
Stored records: the part of an audit that is kept, its score and its three columns of findings.

A record is written as an object. It is read from an object, in which other members are ignored, or
from an array that gives the four values in order and may stop early.
-/

set_option autoImplicit false

namespace SnippetAudit

/-- A stored record. -/
structure Stored where
  score : Option Score := none
  security : Column := .nothing
  performance : Column := .nothing
  smells : Column := .nothing
  deriving DecidableEq

namespace Stored

/-- Equality of records. Scores are compared as numbers, so one that is not a number equals
nothing. -/
def same (left right : Stored) : Bool :=
  left.score.map Score.toFloat == right.score.map Score.toFloat && left.security = right.security &&
    left.performance = right.performance && left.smells = right.smells

/-! Writing -/

def members (stored : Stored) : List (String × Json) :=
  [("complexity_score", (stored.score.map fun score => Json.ofFloat score.toFloat).getD .null),
   ("security_issues", stored.security.toJson),
   ("performance_suggestions", stored.performance.toJson),
   ("code_smells", stored.smells.toJson)]

/-- The record as indented JSON text. -/
def toText (stored : Stored) : String :=
  (Json.object stored.members).pretty

/-! Reading -/

/-- A score is a number in the range of doubles, or null. -/
def scoreOfJson? : Json → Option (Option Score)
  | .null => some none
  | .number numeral => numeral.toFloat?.map fun x => some (.ofFloat x)
  | _ => none

/-- The value of a member that may be missing but not repeated, read by `read?`. -/
def atMostOnce {α : Type} (missing : α) (read? : Json → Option α) : List Json → Option α
  | [] => some missing
  | [value] => read? value
  | _ => none

/-- The record with these values, each given at most once. -/
def ofValues? (score security performance smells : List Json) : Option Stored := do
  let score ← atMostOnce none scoreOfJson? score
  let security ← atMostOnce .nothing Column.ofJson? security
  let performance ← atMostOnce .nothing Column.ofJson? performance
  let smells ← atMostOnce .nothing Column.ofJson? smells
  return { score, security, performance, smells }

def ofMembers? (members : List (String × Json)) : Option Stored :=
  ofValues? (Json.valuesOf "complexity_score" members) (Json.valuesOf "security_issues" members)
    (Json.valuesOf "performance_suggestions" members) (Json.valuesOf "code_smells" members)

/-- Reads a record from a JSON value. -/
def ofJson? : Json → Option Stored
  | .object members => ofMembers? members
  | .array items =>
      if items.length ≤ 4 then
        ofValues? items[0]?.toList items[1]?.toList items[2]?.toList items[3]?.toList
      else none
  | _ => none

/-- Reads a record from JSON text. -/
def ofText? (text : String) : Option Stored :=
  (Json.read? text.toList).bind ofJson?

/-- What is kept of an audit; the findings become JSON text. -/
def ofAudit (audit : Audit) : Stored where
  score := some audit.score
  security := .ofFindings audit.security
  performance := .ofFindings audit.performance
  smells := .ofFindings audit.smells

/-- The audit that a record stands for. A missing score is zero, and no measurement is kept. -/
def audit? (stored : Stored) : Option Audit := do
  let security ← stored.security.findings?
  let performance ← stored.performance.findings?
  let smells ← stored.smells.findings?
  return { score := stored.score.getD (.ofFloat 0.0), security, performance, smells, metrics := {} }

end Stored

end SnippetAudit
