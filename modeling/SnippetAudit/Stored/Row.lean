import SnippetAudit.Instant
import SnippetAudit.Stored.Record

/-!
Rows: stored records with the version they belong to, their kind and the time they were made.

As JSON, a row is one object that holds its own members and those of the record side by side. The
values of all other members are kept while a row is read, so they are subject to the limits on kept
values.
-/

set_option autoImplicit false

namespace SnippetAudit

/-- A row of a store. -/
structure Row where
  id : Nat
  version : Nat
  kind : String
  stored : Stored
  created : Instant
  deriving DecidableEq

namespace Row

/-- The row as compact JSON text. -/
def toText (row : Row) : String :=
  (Json.object
    ([("id", .ofNat row.id), ("snippet_version_id", .ofNat row.version),
      ("analysis_type", .string row.kind)] ++ row.stored.members ++
      [("created_at", .string (String.ofList row.created.toText))])).compact

/-- Ids and versions are below this bound. -/
def idLimit : Nat := 0x10000000000000000

def idOfJson? : Json → Option Nat
  | .number numeral => numeral.toNat?.filter (· < idLimit)
  | _ => none

def textOfJson? : Json → Option String
  | .string text => some text
  | _ => none

def instantOfJson? : Json → Option Instant
  | .string text => Instant.ofText? text.toList
  | _ => none

/-- The value of a member that has to be there exactly once. -/
def exactlyOnce {α : Type} (read? : Json → Option α) : List Json → Option α
  | [value] => read? value
  | _ => none

/-- The members that are a row's own. -/
def ownKeys : List String :=
  ["id", "snippet_version_id", "analysis_type", "created_at"]

/-- Reads a row from a JSON value. -/
def ofJson? : Json → Option Row
  | .object members => do
      let id ← exactlyOnce idOfJson? (Json.valuesOf "id" members)
      let version ← exactlyOnce idOfJson? (Json.valuesOf "snippet_version_id" members)
      let kind ← exactlyOnce textOfJson? (Json.valuesOf "analysis_type" members)
      let created ← exactlyOnce instantOfJson? (Json.valuesOf "created_at" members)
      let others := members.filter fun member => !ownKeys.contains member.1
      if Json.membersKeepable (Column.nestingLimit - 1) others then
        let stored ← Stored.ofMembers? others
        return { id, version, kind, stored, created }
      else none
  | _ => none

/-- Reads a row from JSON text. -/
def ofText? (text : String) : Option Row :=
  (Json.read? text.toList).bind ofJson?

/-- The audit that a row stands for. -/
def audit? (row : Row) : Option Audit :=
  Stored.audit? row.stored

end Row

end SnippetAudit
