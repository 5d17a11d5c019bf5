import SnippetAudit.Finding
import SnippetAudit.Json.Printer
import SnippetAudit.Json.Reader
import SnippetAudit.Text.Blank

/-!
Columns of findings: a list of findings, or the JSON text of one.

A finding is written as an object. It is read from an object, in which other members are ignored,
or from an array of its three values; a severity is a word, or an object with that word as its one
key and null as its value.
-/

set_option autoImplicit false

namespace SnippetAudit

namespace Json

/-- The values of all members with this key, in order. -/
def valuesOf (key : String) (members : List (String × Json)) : List Json :=
  (members.filter fun member => member.1 = key).map Prod.snd

end Json

namespace Severity

def ofJson? : Json → Option Severity
  | .string word => ofWord? word
  | .object [(word, .null)] => ofWord? word
  | _ => none

end Severity

namespace Finding

def toJson (finding : Finding) : Json :=
  .object
    [("type", .string finding.category), ("severity", .string finding.severity.word),
     ("description", .string finding.description)]

/-- The finding with these three values. -/
def ofValues? : Json → Json → Json → Option Finding
  | .string category, severity, .string description =>
      (Severity.ofJson? severity).map fun severity => { category, severity, description }
  | _, _, _ => none

/-- Reads a finding. Each of its members has to be there exactly once. -/
def ofJson? : Json → Option Finding
  | .object members =>
      match Json.valuesOf "type" members, Json.valuesOf "severity" members,
        Json.valuesOf "description" members with
      | [category], [severity], [description] => ofValues? category severity description
      | _, _, _ => none
  | .array [category, severity, description] => ofValues? category severity description
  | _ => none

/-- Findings as an array. -/
def listToJson (findings : List Finding) : Json :=
  .array (findings.map toJson)

end Finding

/-- A stored column. -/
inductive Column where
  | text (json : String)
  | list (findings : List Finding)
  deriving DecidableEq

namespace Column

/-- The column that holds nothing. -/
def nothing : Column :=
  .list []

/-- Findings as JSON text. -/
def ofFindings (findings : List Finding) : Column :=
  .text (Finding.listToJson findings).compact

/-- The findings of a column. Blank text and null are the empty list; `none` means that the text is
no array of findings. -/
def findings? : Column → Option (List Finding)
  | .list findings => some findings
  | .text json =>
      if Text.isAllWhite json.toList then some []
      else
        match Json.read? json.toList with
        | some .null => some []
        | some (.array items) => items.mapM Finding.ofJson?
        | _ => none

def toJson : Column → Json
  | .text json => .string json
  | .list findings => Finding.listToJson findings

/-- How deep a document may be nested where its values are kept. -/
def nestingLimit : Nat := 127

/-- Reads a column that is a member of a record. Null is the empty list; an array is kept, so it is
subject to the limits on kept values, of which the record has used one level. -/
def ofJson? : Json → Option Column
  | .null => some nothing
  | .string json => some (.text json)
  | .array items =>
      if Json.keepable (nestingLimit - 1) (.array items) then
        (items.mapM Finding.ofJson?).map .list
      else none
  | _ => none

end Column

end SnippetAudit
