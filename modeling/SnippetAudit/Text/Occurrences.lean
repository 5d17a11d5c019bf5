/-!
How often a keyword occurs in a text, without overlap.
-/

set_option autoImplicit false

namespace SnippetAudit.Text

/-- Counts from the left: after a keyword was met, its other characters are passed over. `found` is
the count so far and `skip` the number of characters still to pass over. -/
def countFrom (keyword : List Char) (found skip : Nat) : List Char → Nat
  | [] => found
  | c :: rest =>
      match skip with
      | skip + 1 => countFrom keyword found skip rest
      | 0 =>
          if keyword.isPrefixOf (c :: rest) then
            countFrom keyword (found + 1) (keyword.length - 1) rest
          else countFrom keyword found 0 rest

/-- The number of occurrences of a keyword that do not overlap. The empty keyword occurs at every
place of the text, its end included. -/
def countOccurrences (keyword text : List Char) : Nat :=
  if keyword.isEmpty then text.length + 1 else countFrom keyword 0 0 text

end SnippetAudit.Text
