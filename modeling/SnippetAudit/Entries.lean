/-!
Entries under keys, in ascending order of the keys and one for each.
-/

set_option autoImplicit false

namespace SnippetAudit

/-- Puts a value in its place, over one with the same key. -/
def insertEntry {κ α : Type} [LT κ] [DecidableLT κ] [DecidableEq κ] (key : κ) (value : α) :
    List (κ × α) → List (κ × α)
  | [] => [(key, value)]
  | entry :: rest =>
      if key < entry.1 then (key, value) :: entry :: rest
      else if key = entry.1 then (key, value) :: rest
      else entry :: insertEntry key value rest

/-- Puts a value over the one with this key, if there is one. -/
def replaceEntry {κ α : Type} [DecidableEq κ] (key : κ) (value : α) :
    List (κ × α) → List (κ × α)
  | [] => []
  | entry :: rest =>
      if key = entry.1 then (key, value) :: rest else entry :: replaceEntry key value rest

end SnippetAudit
