import SnippetAudit.Catalog.Builtin
import SnippetAudit.Command.Arguments
import SnippetAudit.Input
import SnippetAudit.Report.Basic
import SnippetAudit.Settings
import SnippetAudit.Text.Utf8

/-!
Runs of the command line, as functions of what they can see.
-/

set_option autoImplicit false

namespace SnippetAudit.Command

/-- What a run can see: what paths name, what reading files and standard input gives, and whether
text is coloured. -/
structure Surroundings where
  look : List UInt8 → Option FileTree
  read : List UInt8 → Except ReadFailure (List UInt8)
  console : Except ReadFailure (List UInt8)
  coloured : Bool

/-- How a run ends. -/
inductive Exit where
  | success
  | failure
  | invalidInput
  | securityFindings
  deriving DecidableEq, Repr

def Exit.code : Exit → Nat
  | .success => 0
  | .failure => 1
  | .invalidInput => 2
  | .securityFindings => 3

/-- What a run leaves behind: how it ended, its output, and the lines of its log. -/
structure Outcome where
  exit : Exit
  output : String := ""
  log : List String := []
  deriving DecidableEq, Repr

def errorLine (coloured : Bool) (message : String) : String :=
  Report.paint coloured { style := .bold, colour := some .red } "error:" ++ " " ++ message

def warning (message : String) : String :=
  "WARN " ++ message

/-! Settings -/

/-- The file that settings are read from when no other is given. -/
def settingsFile : String := "codeengage.toml"

/-- The file that the settings of an invocation are read from. -/
def Invocation.settingsPath (invocation : Invocation) : List UInt8 :=
  invocation.config.getD (Path.ofText settingsFile)

/-- Why a file gives no settings. -/
inductive SettingsFault where
  | unreadable (failure : ReadFailure)
  | malformed
  deriving DecidableEq, Repr

def SettingsFault.message (path : List UInt8) : SettingsFault → String
  | .unreadable failure => "I/O error: " ++ failure.message ++ " (path: " ++ Path.shown path ++ ")"
  | .malformed => "Config error in " ++ Path.shown path

/-- The cause below the fault, where there is one to be told. -/
def SettingsFault.cause : SettingsFault → String
  | .unreadable failure => ": " ++ failure.message
  | .malformed => ""

/-- The settings in a file, told by what reading it gives. -/
def settingsOf (content : Except ReadFailure (List UInt8)) : Except SettingsFault Settings := do
  let bytes ← content.mapError .unreadable
  match Text.Utf8.decode? bytes with
  | none => .error (.unreadable .notText)
  | some text =>
      match Settings.ofText? text with
      | none => .error .malformed
      | some settings => .ok settings

/-- The settings of a run and the log of finding them, or why it cannot go on. A file that was asked
for has to give settings; the usual one may be missing, and is ignored if it is wrong. -/
def findSettings (read : List UInt8 → Except ReadFailure (List UInt8))
    (config : Option (List UInt8)) : Except String (Settings × List String) :=
  match config with
  | some path =>
      match settingsOf (read path) with
      | .ok settings => .ok (settings, [])
      | .error (.unreadable .missing) => .error ("config file not found: " ++ Path.shown path)
      | .error fault => .error (fault.message path ++ fault.cause)
  | none =>
      let path := Path.ofText settingsFile
      match settingsOf (read path) with
      | .ok settings => .ok (settings, [])
      | .error (.unreadable .missing) => .ok ({}, [])
      | .error fault =>
          .ok ({}, [warning ("ignoring " ++ settingsFile ++ ": " ++ fault.message path)])

/-! Inputs -/

/-- A text to audit. -/
structure Source where
  label : String
  hint : String
  text : String
  deriving DecidableEq, Repr

/-- Why an input is passed over. -/
inductive Skipped where
  | unreadable (failure : ReadFailure)
  | tooLong (length limit : Nat)
  deriving DecidableEq, Repr

def Skipped.message : Skipped → String
  | .unreadable failure => failure.message
  | .tooLong length limit =>
      toString length ++ " bytes exceeds limit of " ++ toString limit

/-- The source of an input: its bytes as text, in the language that was given or else that its
extension stands for. The limit holds for the length of the text. -/
def sourceOf (limit : Nat) (lang : Option String) (input : Input)
    (content : Except ReadFailure (List UInt8)) : Except Skipped Source :=
  match content with
  | .error failure => .error (.unreadable failure)
  | .ok bytes =>
      let text := Text.Utf8.decodeLossy bytes
      let length := Text.byteLength text
      if limit < length then .error (.tooLong length limit)
      else .ok {
        label := input.label
        hint := (lang <|> input.language?).getD ""
        text := String.ofList text }

/-- Each input with its source, or with why it has none. -/
def sources (limit : Nat) (lang : Option String)
    (read : List UInt8 → Except ReadFailure (List UInt8))
    (console : Except ReadFailure (List UInt8)) (inputs : List Input) :
    List (Input × Except Skipped Source) :=
  (Input.readAll read console inputs).map fun (input, content) =>
    (input, sourceOf limit lang input content)

/-- Where standard input cannot be read, what was found before it and why it cannot. -/
def brokenOff? :
    List (Input × Except Skipped Source) →
      Option (List (Input × Except Skipped Source) × ReadFailure)
  | [] => none
  | (.console, .error (.unreadable failure)) :: _ => some ([], failure)
  | entry :: rest => (brokenOff? rest).map fun (before, failure) => (entry :: before, failure)

/-- The sources that were found, in order. -/
def loaded (found : List (Input × Except Skipped Source)) : List Source :=
  found.filterMap fun entry => entry.2.toOption

/-- A line for every input that was passed over, in order. -/
def skippedLines (found : List (Input × Except Skipped Source)) : List String :=
  found.filterMap fun (input, result) =>
    match result with
    | .error reason => some (warning ("skipping " ++ input.label ++ ": " ++ reason.message))
    | .ok _ => none

/-- A line for every directory in which something could not be listed, in order. -/
def walkLines (look : List UInt8 → Option FileTree) (paths : List (List UInt8)) : List String :=
  paths.filterMap fun path =>
    let errors := Input.faults look path
    if errors = 0 then none
    else some (warning ("errors during directory walk root=" ++ Path.shown path ++ " errors=" ++
      toString errors))

/-! Tasks -/

/-- The paths that a task is given. -/
def Task.paths : Task → List (List UInt8)
  | .analyze paths _ _ _ _ => paths
  | .detect path _ => [path]
  | .restore path _ => [path]
  | .catalog => []

/-- The inputs that a task reads. -/
def Task.inputs (look : List UInt8 → Option FileTree) : Task → List Input
  | .analyze paths _ _ _ _ => Input.ofArguments look paths
  | .detect path _ => (Input.ofArguments look [path]).take 1
  | .restore path _ => [Input.ofPath path]
  | .catalog => []

def written (coloured : Bool) (format : Format) (stored : Bool) (reports : List Report) :
    String :=
  if stored then Report.storedText reports ++ "\n"
  else
    match format with
    | .json => Report.jsonText reports ++ "\n"
    | .text => Report.text coloured reports

/-- Reports on the sources that were found. -/
def reported (coloured : Bool) (rules : Rules) (format : Format) (stored strict : Bool)
    (found : List (Input × Except Skipped Source)) : Outcome :=
  let reports := (loaded found).map fun source =>
    Report.ofSource Catalog.builtin rules source.label source.hint source.text
  if reports.isEmpty then
    { exit := .invalidInput
      log := skippedLines found ++ [errorLine coloured "no readable input"] }
  else
    { exit :=
        if strict && reports.any fun report => report.audit.hasSecurityFinding then
          .securityFindings
        else .success
      output := written coloured format stored reports
      log := skippedLines found ++ ["INFO analyzing inputs=" ++ toString reports.length] }

/-- Audits all sources and reports on them. If standard input is one of them and cannot be read, the
run ends there. -/
def analyze (surroundings : Surroundings) (settings : Settings) (paths : List (List UInt8))
    (lang : Option String) (format : Format) (stored strict : Bool) : Outcome :=
  let coloured := surroundings.coloured
  let found := sources settings.maxInputBytes lang surroundings.read surroundings.console
    (Input.ofArguments surroundings.look paths)
  let outcome : Outcome :=
    match brokenOff? found with
    | some (before, failure) =>
        { exit := .failure
          log := skippedLines before ++
            [errorLine coloured ("failed to read stdin: " ++ failure.message)] }
    | none => reported coloured settings.rules format stored strict found
  { outcome with log := walkLines surroundings.look paths ++ outcome.log }

/-- The text of one input, or the line that says why it cannot be read. -/
def readText (surroundings : Surroundings) (input : Input) : Except String (List Char) :=
  match input.content surroundings.read surroundings.console with
  | .ok bytes => .ok (Text.Utf8.decodeLossy bytes)
  | .error failure =>
      .error (errorLine surroundings.coloured
        ("failed to read " ++ input.label ++ ": " ++ failure.message))

/-- Names the language of the first input that a path stands for. -/
def detect (surroundings : Surroundings) (path : List UInt8) (scores : Bool) : Outcome :=
  let walked := walkLines surroundings.look [path]
  match Input.ofArguments surroundings.look [path] with
  | [] => { exit := .invalidInput, log := walked }
  | input :: _ =>
      match readText surroundings input with
      | .error line => { exit := .failure, log := walked ++ [line] }
      | .ok text =>
          let scoreLine (entry : String × Nat) : String :=
            "  " ++ Report.padRight 12 entry.1 ++ " " ++ toString entry.2 ++ "\n"
          { exit := .success
            output := Detection.language Catalog.builtin text ++ "\n" ++
              (if scores then String.join ((Detection.scores Catalog.builtin text).map scoreLine)
               else "")
            log := walked }

/-- Shows the audit of a stored record. -/
def restore (surroundings : Surroundings) (path : List UInt8) (format : Format) : Outcome :=
  match readText surroundings (Input.ofPath path) with
  | .error line => { exit := .failure, log := [line] }
  | .ok text =>
      match (Stored.ofText? (String.ofList text)).bind Stored.audit? with
      | none =>
          { exit := .invalidInput
            log := [errorLine surroundings.coloured "Stored analysis is malformed"] }
      | some audit =>
          { exit := .success
            output :=
              match format with
              | .json => (Report.auditToJson audit).pretty ++ "\n"
              | .text => Report.restoredText surroundings.coloured audit }

/-- Lists what the catalog knows. -/
def listing (coloured : Bool) (catalog : Catalog) : String :=
  let heading (title : String) : String := Report.paint coloured { style := .bold } title ++ "\n"
  let categoryLine (category : Category) : String :=
    "  " ++ Report.padRight 32 category.name ++ " " ++ toString category.patterns.length ++
      " pattern(s)\n"
  let languageLine (languages : List String) : String := "  " ++ ", ".intercalate languages ++ "\n"
  heading "Security (high)" ++ String.join (catalog.security.map categoryLine) ++
    heading "Performance (medium)" ++ String.join (catalog.performance.map categoryLine) ++
    heading "Extraction languages" ++ languageLine catalog.extractionLanguages ++
    heading "Detectable languages" ++
    languageLine (catalog.fingerprints.map fun fingerprint => fingerprint.language)

def perform (surroundings : Surroundings) (settings : Settings) : Task → Outcome
  | .analyze paths lang format stored strict =>
      analyze surroundings settings paths lang format stored strict
  | .detect path scores => detect surroundings path scores
  | .restore path format => restore surroundings path format
  | .catalog =>
      { exit := .success, output := listing surroundings.coloured Catalog.builtin }

/-- Runs an invocation: finds the settings, then does the task. -/
def run (surroundings : Surroundings) (invocation : Invocation) : Outcome :=
  match findSettings surroundings.read invocation.config with
  | .error message =>
      { exit := .failure, log := [errorLine surroundings.coloured message] }
  | .ok (settings, log) =>
      let outcome := perform surroundings settings invocation.task
      { outcome with log := log ++ outcome.log }

/-- The program's name and version. -/
def versionText : String := "codeengage 0.4.0\n"

end SnippetAudit.Command
