import SnippetAudit.Proofs.Command.Arguments
import SnippetAudit.Proofs.Command.Sources
import SnippetAudit.Proofs.Report.Lossless
import SnippetAudit.Proofs.Report.Terminal

/-!
How a run that audits its inputs ends, and what it prints.

Both depend on the texts that are taken from the inputs. Without any, nothing is printed and the run
ends as one on bad input. Otherwise the output shows one report for each text, in order and in the
form that was asked for, and only the audits decide how the run ends. Standard input is different
from files: if it is an input and cannot be read, it is not passed over, but the run fails.
-/

set_option autoImplicit false

namespace SnippetAudit

open Text.Utf8 (decodeLossy encode)

/-- The text of an input that stands behind others, if it can be read and is not too long. -/
def Input.textAfter? (limit : Nat) (read : List UInt8 → Except ReadFailure (List UInt8))
    (console : Except ReadFailure (List UInt8)) (earlier : List Input) (input : Input) :
    Option (List Char) :=
  ((input.contentAfter read console earlier).toOption.map decodeLossy).filter fun text =>
    Text.byteLength text ≤ limit

namespace Command

/-- The inputs that a text is taken from, with that text, in order. -/
def taken (limit : Nat) (read : List UInt8 → Except ReadFailure (List UInt8))
    (console : Except ReadFailure (List UInt8)) (inputs : List Input) :
    List (Input × List Char) :=
  inputs.zipIdx.filterMap fun entry =>
    (entry.1.textAfter? limit read console (inputs.take entry.2)).map (entry.1, ·)

/-- Standard input is among the inputs and cannot be read. -/
def Unreadable (console : Except ReadFailure (List UInt8)) (inputs : List Input) : Prop :=
  .console ∈ inputs ∧ ∃ failure, console = .error failure

/-- `ReportOn rules lang entry report` says that the report is on this text of this input: the audit
of the text under the language that was given, or else that the extension stands for, or else
none. -/
structure ReportOn (rules : Rules) (lang : Option String) (entry : Input × List Char)
    (report : Report) : Prop where
  path : report.path = entry.1.label
  hint : report.hint = (lang <|> entry.1.language?).getD ""
  hash : report.hash = Digest.ofText (String.ofList entry.2)
  audit : report.audit =
    Audit.ofText Catalog.builtin rules report.hint (String.ofList entry.2)

/-- `Shows coloured reports format stored output` says that the output shows the reports in order
and nothing else. -/
inductive Shows (coloured : Bool) (reports : List Report) : Format → Bool → String → Prop where
  | stored {format : Format} {text : String} {items : List Json} :
      Json.SpellsOnly (.array items) text.toList →
      List.Forall₂ Report.StoredShows reports items →
      Shows coloured reports format true (text ++ "\n")
  | json {text : String} {items : List Json} :
      Json.SpellsOnly (.array items) text.toList → List.Forall₂ Report.Shows reports items →
      Shows coloured reports .json false (text ++ "\n")
  | text {output : String} :
      Report.TextShows coloured reports output → Shows coloured reports .text false output

/-- What the reports on all texts that are taken make of a run. -/
structure Answers (coloured : Bool) (format : Format) (stored strict : Bool)
    (reports : List Report) (outcome : Outcome) : Prop where
  invalid : outcome.exit.code = 2 ↔ reports = []
  silent : reports = [] → outcome.output = ""
  shows : reports ≠ [] → Shows coloured reports format stored outcome.output
  findings : outcome.exit.code = 3 ↔
    strict = true ∧ ∃ report ∈ reports, report.audit.security ≠ []
  success : outcome.exit.code = 0 ↔
    reports ≠ [] ∧ ¬ (strict = true ∧ ∃ report ∈ reports, report.audit.security ≠ [])

/-! Texts -/

section

variable (limit : Nat) (lang : Option String)
variable (read : List UInt8 → Except ReadFailure (List UInt8))
variable (console : Except ReadFailure (List UInt8))

private theorem toOption_sourceOf (earlier : List Input) (input : Input) :
    (sourceOf limit lang input (input.contentAfter read console earlier)).toOption =
      (input.textAfter? limit read console earlier).map fun text =>
        { label := input.label
          hint := (lang <|> input.language?).getD ""
          text := String.ofList text } := by
  rw [Input.textAfter?]
  cases input.contentAfter read console earlier with
  | error failure => rfl
  | ok bytes =>
      rw [sourceOf_ok]
      by_cases long : limit < Text.byteLength (decodeLossy bytes)
      · simp [Except.toOption, long]
      · simp [Except.toOption, long, Nat.not_lt.mp long]

/-- The report on a text. -/
def reportOf (rules : Rules) (entry : Input × List Char) : Report :=
  .ofSource Catalog.builtin rules entry.1.label ((lang <|> entry.1.language?).getD "")
    (String.ofList entry.2)

private theorem reports_loaded (rules : Rules) (inputs : List Input) :
    ((loaded (sources limit lang read console inputs)).map fun source =>
        Report.ofSource Catalog.builtin rules source.label source.hint source.text) =
      (taken limit read console inputs).map (reportOf lang rules) := by
  rw [loaded, sources_eq, List.filterMap_map, List.map_filterMap, taken, List.map_filterMap]
  apply List.filterMap_congr
  intro entry _
  simp only [Function.comp_apply, toOption_sourceOf, Option.map_map]
  rfl

private theorem forall₂_reportOf (rules : Rules) (entries : List (Input × List Char)) :
    List.Forall₂ (ReportOn rules lang) entries (entries.map (reportOf lang rules)) := by
  rw [List.forall₂_map_right_iff, List.forall₂_same]
  exact fun entry _ => ⟨rfl, rfl, rfl, rfl⟩

/-! Unreadable standard input -/

private theorem brokenOff?_cons_of_ne {entry : Input × Except Skipped Source}
    (other : ∀ failure, entry ≠ (.console, .error (.unreadable failure)))
    (rest : List (Input × Except Skipped Source)) :
    (brokenOff? (entry :: rest)).isSome = (brokenOff? rest).isSome := by
  rw [brokenOff?]
  · exact Option.isSome_map
  · exact fun failure same => other failure same

theorem isSome_brokenOff?_iff {console : Except ReadFailure (List UInt8)} {inputs : List Input} :
    (brokenOff? (sources limit lang read console inputs)).isSome = true ↔
      Unreadable console inputs := by
  induction inputs generalizing console with
  | nil => simp [Unreadable, sources, Input.readAll, brokenOff?]
  | cons input inputs ih =>
      rw [sources, Input.readAll, List.map_cons, ← sources]
      cases input with
      | file path =>
          rw [brokenOff?_cons_of_ne (by simp)]
          refine ih.trans ?_
          simp [Unreadable, Input.remaining]
      | console =>
          cases console with
          | error failure => simp [Unreadable, Input.content, sourceOf, brokenOff?]
          | ok bytes =>
              -- what has been read once can be read again
              have readable : ∀ failure,
                  sourceOf limit lang .console (.ok bytes) ≠ .error (.unreadable failure) := by
                intro failure
                rw [sourceOf_ok]
                split_ifs <;> simp
              rw [brokenOff?_cons_of_ne (by simpa [Input.content] using readable)]
              refine ih.trans (iff_of_false ?_ ?_) <;>
                simp [Unreadable, Input.remaining, Except.map]

end

/-! Output -/

private theorem shows_written (coloured : Bool) (format : Format) (stored : Bool)
    {reports : List Report} (ascend : ∀ report ∈ reports, report.audit.metrics.NamesAscend) :
    Shows coloured reports format stored (written coloured format stored reports) := by
  cases stored with
  | true =>
      refine .stored (Report.spells_storedText reports).spellsOnly.2 ?_
      rw [List.forall₂_map_right_iff, List.forall₂_same]
      exact fun report _ => report.storedShows_withPath
  | false =>
      cases format with
      | json =>
          exact .json (Report.spells_jsonText reports).spellsOnly.2 (Report.forall₂_shows ascend)
      | text => exact .text (Report.textShows_text coloured reports)

/-! Runs -/

private theorem any_hasSecurityFinding {reports : List Report} :
    (reports.any fun report => report.audit.hasSecurityFinding) = true ↔
      ∃ report ∈ reports, report.audit.security ≠ [] := by
  simp [Audit.hasSecurityFinding]

private theorem answers_reported (coloured : Bool) (rules : Rules) (format : Format)
    (stored strict : Bool) (found : List (Input × Except Skipped Source)) :
    Answers coloured format stored strict
      ((loaded found).map fun source =>
        Report.ofSource Catalog.builtin rules source.label source.hint source.text)
      (reported coloured rules format stored strict found) := by
  have ascend : ∀ report ∈ (loaded found).map fun source =>
      Report.ofSource Catalog.builtin rules source.label source.hint source.text,
      report.audit.metrics.NamesAscend := by
    intro report member
    obtain ⟨source, _, rfl⟩ := List.mem_map.mp member
    exact Report.namesAscend_ofSource ..
  rw [reported]
  generalize (loaded found).map _ = reports at ascend ⊢
  cases reports with
  | nil => constructor <;> simp [Exit.code]
  | cons report reports =>
      have shown := shows_written coloured format stored ascend
      simp only [List.isEmpty_cons, Bool.false_eq_true, if_false, Bool.and_eq_true,
        any_hasSecurityFinding]
      by_cases found : strict = true ∧ ∃ shown ∈ report :: reports, shown.audit.security ≠ []
      · rw [if_pos found]
        exact ⟨by simp [Exit.code], by simp, fun _ => shown, iff_of_true rfl found,
          iff_of_false (by simp [Exit.code]) fun quiet => quiet.2 found⟩
      · rw [if_neg found]
        exact ⟨by simp [Exit.code], by simp, fun _ => shown,
          iff_of_false (by simp [Exit.code]) found, iff_of_true rfl ⟨by simp, found⟩⟩

theorem Answers.with_log {coloured : Bool} {format : Format} {stored strict : Bool}
    {reports : List Report} {outcome : Outcome}
    (answers : Answers coloured format stored strict reports outcome) (log : List String) :
    Answers coloured format stored strict reports { outcome with log } :=
  ⟨answers.invalid, answers.silent, answers.shows, answers.findings, answers.success⟩

section

variable (surroundings : Surroundings) (settings : Settings) (paths : List (List UInt8))
variable (lang : Option String) (format : Format) (stored strict : Bool)

private theorem analyze_of_unreadable
    (unreadable : Unreadable surroundings.console (Input.ofArguments surroundings.look paths)) :
    (analyze surroundings settings paths lang format stored strict).exit.code = 1 ∧
      (analyze surroundings settings paths lang format stored strict).output = "" := by
  obtain ⟨broken, isBroken⟩ := Option.isSome_iff_exists.mp
    ((isSome_brokenOff?_iff settings.maxInputBytes lang surroundings.read).mpr unreadable)
  simp [analyze, isBroken, Exit.code]

private theorem answers_analyze
    (readable : ¬ Unreadable surroundings.console (Input.ofArguments surroundings.look paths)) :
    Answers surroundings.coloured format stored strict
      ((taken settings.maxInputBytes surroundings.read surroundings.console
        (Input.ofArguments surroundings.look paths)).map (reportOf lang settings.rules))
      (analyze surroundings settings paths lang format stored strict) := by
  rw [← isSome_brokenOff?_iff settings.maxInputBytes lang surroundings.read, Bool.not_eq_true,
    Option.isSome_eq_false_iff, Option.isNone_iff_eq_none] at readable
  rw [← reports_loaded]
  simp only [analyze, readable]
  exact (answers_reported ..).with_log _

end

private theorem findSettings_without_config (read : List UInt8 → Except ReadFailure (List UInt8)) :
    ∃ settings log, findSettings read none = .ok (settings, log) := by
  rw [findSettings]
  cases settingsOf (read (Path.ofText settingsFile)) with
  | ok settings => exact ⟨settings, [], rfl⟩
  | error fault =>
      cases fault with
      | malformed => exact ⟨_, _, rfl⟩
      | unreadable failure => cases failure <;> exact ⟨_, _, rfl⟩

/-- Arguments with paths, none of them empty, start an audit with the switches that are set. It ends
and prints as the texts of its inputs demand under the settings that were found, and some are always
found unless a file was given for them. If standard input is one of the inputs and cannot be read,
the run fails instead, with nothing printed. -/
theorem run_answers (surroundings : Surroundings) (config : Option (List UInt8))
    (lang : Option String) (format : Option Format) (stored strict : Bool) :
    (∀ arguments : List String,
      Invocation.ofArguments (auditArguments lang format stored strict arguments) =
        if arguments = [] ∨ "" ∈ arguments then .error .usage
        else .ok {
          task := .analyze (arguments.map Path.ofText) lang (format.getD .text) stored strict }) ∧
    (config = none → ∃ settings log, findSettings surroundings.read config = .ok (settings, log)) ∧
    ∀ (paths : List (List UInt8)) (settings : Settings) (log : List String),
      findSettings surroundings.read config = .ok (settings, log) →
      let inputs := paths.flatMap (Input.ofArgument surroundings.look)
      let outcome := run surroundings
        { config, task := .analyze paths lang (format.getD .text) stored strict }
      (Unreadable surroundings.console inputs → outcome.exit.code = 1 ∧ outcome.output = "") ∧
      (¬ Unreadable surroundings.console inputs →
        ∃ reports,
          List.Forall₂ (ReportOn settings.rules lang)
            (taken settings.maxInputBytes surroundings.read surroundings.console inputs) reports ∧
          Answers surroundings.coloured (format.getD .text) stored strict reports outcome) := by
  refine ⟨ofArguments_auditArguments lang format stored strict, ?_, ?_⟩
  · rintro rfl
    exact findSettings_without_config surroundings.read
  · intro paths settings log found inputs outcome
    have ran : outcome =
        { analyze surroundings settings paths lang (format.getD .text) stored strict with
          log := log ++
            (analyze surroundings settings paths lang (format.getD .text) stored strict).log } := by
      simp only [outcome, run, found]
      rfl
    rw [ran]
    constructor
    · exact analyze_of_unreadable surroundings settings paths lang _ stored strict
    · intro readable
      exact ⟨_, forall₂_reportOf lang settings.rules _,
        (answers_analyze surroundings settings paths lang _ stored strict readable).with_log _⟩

/-- Behind a file that is too long and one that is missing, standard input is read twice: the second
time nothing is left of it, which is a text as well. -/
theorem run_answers_console_twice :
    ∃ look read, findSettings read none = .ok ({ maxInputBytes := 2 }, []) ∧
      Invocation.ofArguments
          (auditArguments none none false true ["long.py", "gone.py", "-", "-"]) =
        .ok {
          task := .analyze (["long.py", "gone.py", "-", "-"].map Path.ofText) none .text false
            true } ∧
      ∃ first second : Report,
        (first.path = "<stdin>" ∧ first.hint = "" ∧
          first.audit = Audit.ofText Catalog.builtin {} "" "a") ∧
        (second.path = "<stdin>" ∧ second.hint = "" ∧
          second.audit = Audit.ofText Catalog.builtin {} "" "") ∧
        Report.TextShows false [first, second]
          (run { look, read, console := .ok [0x61], coloured := false }
            { task := .analyze (["long.py", "gone.py", "-", "-"].map Path.ofText) none .text false
                true }).output := by
  obtain ⟨look, read, found, listed, kept⟩ : ∃ look read,
      findSettings read none = .ok ({ maxInputBytes := 2 }, []) ∧
      (["long.py", "gone.py", "-", "-"].map Path.ofText).flatMap (Input.ofArgument look) =
        [.file (Path.ofText "long.py"), .file (Path.ofText "gone.py"), .console, .console] ∧
      taken 2 read (.ok [0x61])
        [.file (Path.ofText "long.py"), .file (Path.ofText "gone.py"), .console, .console] =
        [(.console, ['a']), (.console, [])] := by
    let files := (Files.addFile {} "codeengage.toml"
      (encode "[limits]\nmax_input_bytes = 2\n".toList)).addFile "long.py" [0x61, 0x62, 0x63]
    exact ⟨files.look, files.read, by decide +kernel, by decide +kernel, by decide +kernel⟩
  obtain ⟨started, _, ends⟩ := run_answers
    { look, read, console := .ok [0x61], coloured := false } none none none false true
  refine ⟨look, read, found, by simpa using started ["long.py", "gone.py", "-", "-"], ?_⟩
  obtain ⟨reports, onTexts, answers⟩ :=
    (ends (["long.py", "gone.py", "-", "-"].map Path.ofText) _ _ found).2 nofun
  rw [listed, kept] at onTexts
  obtain ⟨first, others, onFirst, onOthers, rfl⟩ := List.forall₂_cons_left_iff.mp onTexts
  obtain ⟨second, nothing, onSecond, onNothing, rfl⟩ := List.forall₂_cons_left_iff.mp onOthers
  obtain rfl := List.forall₂_nil_left_iff.mp onNothing
  refine ⟨first, second, ⟨onFirst.path, onFirst.hint, ?_⟩, ⟨onSecond.path, onSecond.hint, ?_⟩, ?_⟩
  · rw [onFirst.audit, onFirst.hint]
    rfl
  · rw [onSecond.audit, onSecond.hint]
    rfl
  · have shown := answers.shows (by simp)
    cases shown with
    | text shown => exact shown

/-- An empty path stops a run before it starts, although there is a text to be taken behind it. With
standard input as the only input, and that a directory, nothing is taken, but the run does not end
as one without inputs. -/
theorem run_fails_beside_inputs :
    let files : Files := Files.addFile {} "a.py" (encode ['x'])
    (taken ({} : Settings).maxInputBytes files.read (.ok [])
        (["", "a.py"].map Path.ofText |>.flatMap (Input.ofArgument files.look)) =
      [(.file (Path.ofText "a.py"), ['x'])] ∧
      Invocation.ofArguments ["analyze", "", "a.py"] = .error .usage) ∧
    taken ({} : Settings).maxInputBytes files.read (.error .isDirectory)
        (["-"].map Path.ofText |>.flatMap (Input.ofArgument files.look)) = [] ∧
      run
        { look := files.look, read := files.read, console := .error .isDirectory
          coloured := false }
        { task := .analyze [Path.ofText "-"] none .text false false } =
      { exit := .failure
        log := ["error: failed to read stdin: Is a directory (os error 21)"] } := by
  decide +kernel

end Command

end SnippetAudit
