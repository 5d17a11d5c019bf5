import SnippetAudit.Catalog.Basic
import SnippetAudit.Text.Lines

/-!
Measurements of a text: lines, bytes, and the names that a language's patterns find in it.
-/

set_option autoImplicit false

namespace SnippetAudit

/-- What is measured. The three lists of names are strictly ascending. -/
structure Metrics where
  lines : Nat := 0
  solidLines : Nat := 0
  bytes : Nat := 0
  bytesWithoutSpaces : Nat := 0
  averageLineLength : Nat := 0
  functions : List String := []
  classes : List String := []
  imports : List String := []
  detectedLanguage : String := ""
  deriving DecidableEq, Repr

namespace Metrics

/-- A kind of name. -/
inductive Kind where
  | functions
  | classes
  | imports
  deriving DecidableEq, Repr

def Kind.select {α : Type} (patterns : NamePatterns α) : Kind → List α
  | .functions => patterns.functions
  | .classes => patterns.classes
  | .imports => patterns.imports

/-- Puts a name in its place among ascending names, unless it is there. -/
def insertName (label : String) : List String → List String
  | [] => [label]
  | first :: rest =>
      if label < first then label :: first :: rest
      else if label = first then first :: rest
      else first :: insertName label rest

/-- The distinct names, ascending. -/
def distinctNames (labels : List String) : List String :=
  labels.foldl (fun sorted label => insertName label sorted) []

/-- The names of one kind in a text. A language that the catalog does not know has none. -/
def namesIn (catalog : Catalog) (kind : Kind) (language : String) (text : List Char) :
    List String :=
  match catalog.extraction? language with
  | none => []
  | some patterns =>
      distinctNames
        ((kind.select patterns).flatMap fun pattern => (pattern.names text).map String.ofList)

/-- The mean rounded to the nearest number, a half upwards; zero for nothing. -/
def average (total count : Nat) : Nat :=
  if count = 0 then 0 else (2 * total + count) / (2 * count)

/-- The number of lines. -/
def lineCount (text : List Char) : Nat :=
  (Text.lines text).length

/-- The sum of the lengths of lines, in bytes. -/
def totalBytes (lines : List (List Char)) : Nat :=
  lines.foldl (fun total line => total + Text.byteLength line) 0

/-- Measures a text, its language apart. -/
def measure (catalog : Catalog) (language : String) (text : List Char) : Metrics :=
  let solid := Text.solidLines text
  { lines := lineCount text
    solidLines := solid.length
    bytes := Text.byteLength text
    bytesWithoutSpaces := Text.byteLength (text.filter (· ≠ ' '))
    averageLineLength := average (totalBytes solid) solid.length
    functions := namesIn catalog .functions language text
    classes := namesIn catalog .classes language text
    imports := namesIn catalog .imports language text }

end Metrics

end SnippetAudit
