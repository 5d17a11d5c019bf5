import SnippetAudit.Entries
import SnippetAudit.Pattern.Reader
import SnippetAudit.Pattern.Search

/-!
Catalogs of patterns.

`Tables` holds pattern texts; `Catalog.compile` reads them all, in one fixed order, and reports the
first text that is no pattern. A later extraction entry for a language takes the place of an earlier
one, but both are read. What reads the texts is a `Compiler`; `Catalog.ofTables` is the reading by
`Pattern.compiler`.
-/

set_option autoImplicit false

namespace SnippetAudit

/-- The patterns that name functions, classes and imports in one language. -/
structure NamePatterns (α : Type) where
  functions : List α := []
  classes : List α := []
  imports : List α := []

/-- The texts a catalog is read from. -/
structure Tables where
  complexity : List (String × Float) := []
  security : List (String × List String) := []
  performance : List (String × List String) := []
  extraction : List (String × NamePatterns String) := []
  fingerprints : List (String × List String) := []

/-- What makes patterns of texts: of one text alone, and of several texts that are searched for
together. It says why it fails. -/
structure Compiler (α β φ : Type) where
  pattern : String → Except φ α
  group : List String → Except φ β

/-- A pattern whose matches add to the complexity score. -/
structure Signal (α : Type := Pattern) where
  text : String
  pattern : α
  weight : Float

/-- A named group of patterns; each pattern that occurs is one finding. -/
structure Category (β : Type := List Pattern) where
  name : String
  patterns : β

/-- Keywords that vote for a language, in lower case. -/
structure Fingerprint where
  language : String
  keywords : List String

/-- A catalog. The extraction entries are in ascending order of language, one for each. -/
structure Catalog (α : Type := Pattern) (β : Type := List Pattern) where
  complexity : List (Signal α)
  security : List (Category β)
  performance : List (Category β)
  extraction : List (String × NamePatterns α)
  fingerprints : List Fingerprint

/-- The text that was no pattern, and why. -/
structure BadPattern (φ : Type := PatternFault) where
  text : String
  fault : φ

/-- Every pattern of a group is read as it is alone. -/
def Pattern.compiler : Compiler Pattern (List Pattern) PatternFault where
  pattern text := Pattern.ofText text.toList
  group texts := texts.mapM fun text => Pattern.ofText text.toList

namespace Compiler

variable {α β φ : Type} (compiler : Compiler α β φ)

/-- Reads one pattern text. -/
def readPattern (text : String) : Except (BadPattern φ) α :=
  (compiler.pattern text).mapError fun fault => { text, fault }

def readSignal (entry : String × Float) : Except (BadPattern φ) (Signal α) :=
  (compiler.readPattern entry.1).map fun pattern => { text := entry.1, pattern, weight := entry.2 }

/-- Each text is read alone before all are read together, so that an error names the text. Should
only the group fail, the error has the name of the category. -/
def readCategory (entry : String × List String) : Except (BadPattern φ) (Category β) := do
  let _ ← entry.2.mapM compiler.readPattern
  let patterns ← (compiler.group entry.2).mapError fun fault => { text := entry.1, fault }
  return { name := entry.1, patterns }

def readNamePatterns (texts : NamePatterns String) :
    Except (BadPattern φ) (NamePatterns α) := do
  let functions ← texts.functions.mapM compiler.readPattern
  let classes ← texts.classes.mapM compiler.readPattern
  let imports ← texts.imports.mapM compiler.readPattern
  return { functions, classes, imports }

def readExtraction (entry : String × NamePatterns String) :
    Except (BadPattern φ) (String × NamePatterns α) :=
  (compiler.readNamePatterns entry.2).map fun patterns => (entry.1, patterns)

end Compiler

namespace Catalog

def readFingerprint (entry : String × List String) : Fingerprint where
  language := entry.1
  keywords := entry.2.map fun keyword => String.ofList (Text.asciiLower keyword.toList)

/-- Reads a catalog: complexity first, then security, performance and extraction. -/
def compile {α β φ : Type} (compiler : Compiler α β φ) (tables : Tables) :
    Except (BadPattern φ) (Catalog α β) := do
  let complexity ← tables.complexity.mapM compiler.readSignal
  let security ← tables.security.mapM compiler.readCategory
  let performance ← tables.performance.mapM compiler.readCategory
  let extraction ← tables.extraction.mapM compiler.readExtraction
  return {
    complexity
    security
    performance
    extraction := extraction.foldl (fun entries (key, value) => insertEntry key value entries) []
    fingerprints := tables.fingerprints.map readFingerprint }

def ofTables (tables : Tables) : Except BadPattern Catalog :=
  compile Pattern.compiler tables

/-- The extraction patterns of a language, if there are any. -/
def extraction? {α β : Type} (catalog : Catalog α β) (language : String) :
    Option (NamePatterns α) :=
  catalog.extraction.lookup language

/-- The languages with extraction patterns, in ascending order. -/
def extractionLanguages {α β : Type} (catalog : Catalog α β) : List String :=
  catalog.extraction.map (·.1)

/-- The catalog without entries. -/
def nothing : Catalog where
  complexity := []
  security := []
  performance := []
  extraction := []
  fingerprints := []

end Catalog

end SnippetAudit
