import SnippetAudit.Audit
import SnippetAudit.Digest
import SnippetAudit.Report.Paint
import SnippetAudit.Stored.Record

/-!
Reports on audited files, as terminal text and as JSON.
-/

set_option autoImplicit false

namespace SnippetAudit

/-- The report on one file. -/
structure Report where
  path : String
  hint : String
  hash : String
  audit : Audit

/-- Audits a source and reports on it under a path. -/
def Report.ofSource (catalog : Catalog) (rules : Rules) (path hint source : String) :
    Report where
  path
  hint
  hash := Digest.ofText source
  audit := Audit.ofText catalog rules hint source

namespace Report

/-! JSON -/

def namesToJson (labels : List String) : Json :=
  .array (labels.map .string)

def metricsToJson (metrics : Metrics) : Json :=
  .object
    [("lines_of_code", .ofNat metrics.lines), ("non_empty_lines", .ofNat metrics.solidLines),
     ("character_count", .ofNat metrics.bytes),
     ("character_count_no_spaces", .ofNat metrics.bytesWithoutSpaces),
     ("average_line_length", .ofNat metrics.averageLineLength),
     ("functions", namesToJson metrics.functions), ("classes", namesToJson metrics.classes),
     ("imports", namesToJson metrics.imports),
     ("detected_language", .string metrics.detectedLanguage)]

def auditToJson (audit : Audit) : Json :=
  .object
    [("complexity_score", .ofFloat audit.score.toFloat),
     ("security_issues", Finding.listToJson audit.security),
     ("performance_suggestions", Finding.listToJson audit.performance),
     ("code_smells", Finding.listToJson audit.smells),
     ("metrics", metricsToJson audit.metrics)]

def fileToJson (report : Report) : Json :=
  .object
    [("path", .string report.path), ("language_hint", .string report.hint),
     ("sha256", .string report.hash), ("result", auditToJson report.audit)]

/-- Reports as indented JSON text. -/
def jsonText (reports : List Report) : String :=
  (Json.array (reports.map fileToJson)).pretty

/-- Reports in their stored form, each with its path, as indented JSON text. -/
def storedText (reports : List Report) : String :=
  (Json.array (reports.map fun report =>
    .object (("path", .string report.path) :: (Stored.ofAudit report.audit).members))).pretty

/-! Terminal text -/

/-- Blanks up to a width behind a label. -/
def padRight (width : Nat) (label : String) : String :=
  label ++ String.ofList (List.replicate (width - label.length) ' ')

/-- A score with two decimals: red above 15, yellow above 8, otherwise green. -/
def scoreText (coloured : Bool) (score : Float) : String :=
  let colour : Colour :=
    if 15.0 < score then .red else if 8.0 < score then .yellow else .green
  paint coloured { colour := some colour } (Decimal.twoPlaces score)

def severityText (coloured : Bool) : Severity → String
  | .high => paint coloured { style := .bold, colour := some .red } "[HIGH]"
  | .medium => paint coloured { colour := some .yellow } "[MEDIUM]"
  | .low => paint coloured { style := .dimmed } "[LOW]"

def findingLine (coloured : Bool) (label : String) (finding : Finding) : String :=
  "  " ++ severityText coloured finding.severity ++ " " ++ padRight 12 label ++ " " ++
    paint coloured { style := .bold } finding.category ++ ": " ++ finding.description ++ "\n"

/-- All findings of an audit, a line each. -/
def findingLines (coloured : Bool) (audit : Audit) : String :=
  String.join
    (audit.security.map (findingLine coloured "security") ++
      audit.performance.map (findingLine coloured "performance") ++
      audit.smells.map (findingLine coloured "smell"))

/-- A line of names, if there are any. -/
def nameLine (label : String) (labels : List String) : String :=
  if labels.isEmpty then "" else "  " ++ label ++ ": " ++ ", ".intercalate labels ++ "\n"

/-- The text of one report. -/
def fileText (coloured : Bool) (report : Report) : String :=
  let audit := report.audit
  let metrics := audit.metrics
  paint coloured { style := .bold } report.path ++ " [" ++
    (if report.hint.isEmpty then "-" else report.hint) ++ " / detected " ++
    paint coloured { colour := some .cyan } metrics.detectedLanguage ++ "] complexity " ++
    scoreText coloured audit.score.toFloat ++ "\n" ++
    "  " ++ toString metrics.lines ++ " lines (" ++ toString metrics.solidLines ++
    " non-empty), " ++ toString metrics.bytes ++ " chars, avg line " ++
    toString metrics.averageLineLength ++ "\n" ++
    nameLine "functions" metrics.functions ++ nameLine "classes" metrics.classes ++
    nameLine "imports" metrics.imports ++ findingLines coloured audit ++
    (if audit.hasNoFindings then
      "  " ++ paint coloured { colour := some .green } "No findings." ++ "\n"
     else "") ++ "\n"

/-- The line that sums up all reports, red if there is a security issue and otherwise green. -/
def closingLine (coloured : Bool) (reports : List Report) : String :=
  let total (kind : Audit → List Finding) : Nat :=
    (reports.flatMap fun report => kind report.audit).length
  let security := total Audit.security
  let line :=
    toString reports.length ++ " file(s): " ++ toString security ++ " security issue(s), " ++
      toString (total Audit.performance) ++ " performance suggestion(s), " ++
      toString (total Audit.smells) ++ " code smell(s)"
  paint coloured { style := .bold, colour := some (if 0 < security then .red else .green) } line

/-- The text of reports with the summary. -/
def text (coloured : Bool) (reports : List Report) : String :=
  String.join (reports.map (fileText coloured)) ++ closingLine coloured reports ++ "\n"

/-- The text of an audit that was read from a stored record. -/
def restoredText (coloured : Bool) (audit : Audit) : String :=
  "complexity " ++ scoreText coloured audit.score.toFloat ++ "\n" ++ findingLines coloured audit

end Report

end SnippetAudit
