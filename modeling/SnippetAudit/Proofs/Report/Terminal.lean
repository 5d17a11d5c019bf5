import SnippetAudit.Proofs.Decimal.Shortest
import SnippetAudit.Report.Basic

/-!
What the terminal text of reports shows.

The relations below say which lines show a report, and which line sums up all of them, without
reference to how they are written. In colour a piece of text stands between the sequence of its ink
and a reset. The text of reports is the lines of each, in order, and then the closing one.
-/

set_option autoImplicit false

namespace SnippetAudit

namespace Decimal

/-- The text of a double to two places: as many hundredths as are nearest to its exact value, or a
word. -/
inductive ShowsPlaces (x : Float) : String → Prop where
  | number {value : Dyadic} {hundredths : Nat} :
      Reading.ofFloat x = .finite value →
      Near hundredths (100 * (value.mantissa * 2 ^ value.exponent)) →
      ShowsPlaces x ((if value.negative then "-" else "") ++ toString (hundredths / 100) ++ "." ++
        toString (hundredths / 10 % 10) ++ toString (hundredths % 10))
  | infinite : Reading.ofFloat x = .infinite false → ShowsPlaces x "inf"
  | negativeInfinite : Reading.ofFloat x = .infinite true → ShowsPlaces x "-inf"
  | notANumber : Reading.ofFloat x = .notANumber → ShowsPlaces x "NaN"

private theorem near_hundredths (value : Dyadic) :
    Near (roundDiv (100 * value.ratio.1) value.ratio.2)
      (100 * (value.mantissa * 2 ^ value.exponent)) := by
  have positive : (value.ratio.2 : ℚ) ≠ 0 := by exact_mod_cast (ratio_den_pos value).ne'
  have near := near_roundDiv (100 * value.ratio.1) (ratio_den_pos value)
  rwa [Nat.cast_mul, ratio_eq, mul_div_assoc, mul_div_cancel_right₀ _ positive] at near

private theorem showsPlaces_twoPlaces (x : Float) : ShowsPlaces x (twoPlaces x) := by
  rw [twoPlaces]
  cases reading : Reading.ofFloat x with
  | infinite negative =>
      cases negative with
      | false => exact .infinite reading
      | true => exact .negativeInfinite reading
  | notANumber => exact .notANumber reading
  | finite value =>
      have shown := ShowsPlaces.number reading (near_hundredths value)
      simp only
      generalize roundDiv (100 * value.ratio.1) value.ratio.2 = hundredths at shown ⊢
      have tens : hundredths % 100 / 10 = hundredths / 10 % 10 := by omega
      have ones : hundredths % 100 % 10 = hundredths % 10 := by omega
      have same : String.ofList ((if value.negative then ['-'] else []) ++
          Numeral.digitsOf (hundredths / 100) ++ '.' ::
            (Numeral.digitsOf (hundredths % 100 / 10) ++
              Numeral.digitsOf (hundredths % 100 % 10))) =
          (if value.negative then "-" else "") ++ toString (hundredths / 100) ++ "." ++
            toString (hundredths / 10 % 10) ++ toString (hundredths % 10) := by
        rw [tens, ones, ← String.toList_inj]
        cases value.negative <;> simp [Numeral.digitsOf, Nat.repr]
      rwa [same]

end Decimal

namespace Report

/-! Inks -/

def reset : List Char := ['\x1b', '[', '0', 'm']

/-- `Inked start text shown` says that the text is shown with the sequence again behind every reset
that is in it. -/
inductive Inked (start : List Char) : List Char → List Char → Prop where
  | last {piece : List Char} : ¬ reset <:+: piece → Inked start piece piece
  | broken {piece rest shown : List Char} :
      ¬ reset <:+: piece → Inked start rest shown →
      Inked start (piece ++ reset ++ rest) (piece ++ reset ++ start ++ shown)

/-- `Painted codes coloured text shown` says that the text is shown in the ink with these codes, or
as it is where colours are off. -/
inductive Painted (codes : String) : Bool → String → String → Prop where
  | plain {text : String} : Painted codes false text text
  | inked {text : String} {shown : List Char} :
      Inked ("\x1b[" ++ codes ++ "m").toList text.toList shown →
      Painted codes true text ("\x1b[" ++ codes ++ "m" ++ String.ofList shown ++ "\x1b[0m")

private theorem reink_reset (start rest : List Char) :
    reink start 0 (reset ++ rest) = reset ++ start ++ reink start 0 rest := by
  have first : resetSequence.toList.isPrefixOf ('\x1b' :: '[' :: '0' :: 'm' :: rest) = true := by
    simp [resetSequence]
  have three : resetSequence.length - 1 = 3 := rfl
  change reink start 0 ('\x1b' :: '[' :: '0' :: 'm' :: rest) = _
  simp [reink, first, three, reset]

private theorem reink_of_not_reset {start : List Char} {c : Char} {rest : List Char}
    (other : ¬ reset <+: c :: rest) : reink start 0 (c :: rest) = c :: reink start 0 rest := by
  have different : resetSequence.toList.isPrefixOf (c :: rest) = false := by
    rw [← Bool.not_eq_true, List.isPrefixOf_iff_prefix]
    exact other
  simp [reink, different]

theorem Inked.cons {start : List Char} {c : Char} {rest shown : List Char}
    (inked : Inked start rest shown) (other : ¬ reset <+: c :: rest) :
    Inked start (c :: rest) (c :: shown) := by
  cases inked with
  | last whole =>
      refine .last fun inside => ?_
      rcases List.infix_cons_iff.mp inside with first | later
      · exact other first
      · exact whole later
  | @broken piece rest shown whole inked =>
      refine @Inked.broken start (c :: piece) rest shown (fun inside => ?_) inked
      rcases List.infix_cons_iff.mp inside with first | later
      · -- a reset at the front of the piece would be one at the front of the text
        exact other (first.trans ⟨reset ++ rest, by simp⟩)
      · exact whole later

private theorem inked_reink (start text : List Char) : Inked start text (reink start 0 text) := by
  induction size : text.length using Nat.strong_induction_on generalizing text with
  | h n ih =>
      cases text with
      | nil => exact .last (by decide)
      | cons c rest =>
          by_cases first : reset <+: c :: rest
          · obtain ⟨tail, same⟩ := first
            rw [← same, List.length_append] at size
            rw [← same, reink_reset]
            have later := ih tail.length (by simp [← size, reset]) tail rfl
            exact @Inked.broken start [] tail _ (by decide) later
          · rw [reink_of_not_reset first]
            exact (ih rest.length (by simp [← size]) rest rfl).cons first

private theorem painted_paint (coloured : Bool) (ink : Ink) {codes : String} (text : String)
    (sequence : ink.sequence = "\x1b[" ++ codes ++ "m") :
    Painted codes coloured text (paint coloured ink text) := by
  cases coloured with
  | false => exact .plain
  | true =>
      rw [paint, if_pos rfl, sequence]
      exact .inked (inked_reink _ _)

/-! Lines -/

/-- The text of lines, each with its end. -/
def ofLines (lines : List String) : String :=
  String.join (lines.map (· ++ "\n"))

theorem ofLines_cons (line : String) (lines : List String) :
    ofLines (line :: lines) = line ++ "\n" ++ ofLines lines := by
  rw [ofLines, List.map_cons, String.join_cons]
  rfl

theorem ofLines_singleton (line : String) : ofLines [line] = line ++ "\n" := by
  rw [ofLines_cons]
  exact String.append_empty

theorem ofLines_append (left right : List String) :
    ofLines (left ++ right) = ofLines left ++ ofLines right := by
  rw [ofLines, List.map_append, String.join_append]
  rfl

/-! Findings -/

/-- How a severity is tagged, and in which ink. -/
inductive Tag : Severity → String → String → Prop where
  | high : Tag .high "1;31" "[HIGH]"
  | medium : Tag .medium "33" "[MEDIUM]"
  | low : Tag .low "2" "[LOW]"

inductive FindingShows (coloured : Bool) : String × Finding → String → Prop where
  | line {label codes tag shownTag category : String} {finding : Finding} :
      Tag finding.severity codes tag → Painted codes coloured tag shownTag →
      Painted "1" coloured finding.category category →
      FindingShows coloured (label, finding)
        ("  " ++ shownTag ++ " " ++ label ++ " " ++ category ++ ": " ++ finding.description)

/-- All findings of an audit in the order of their lines, each with what it is called. -/
def labelled (audit : Audit) : List (String × Finding) :=
  audit.security.map ("security    ", ·) ++ audit.performance.map ("performance ", ·) ++
    audit.smells.map ("smell       ", ·)

/-- The line of a finding, without its end. -/
def findingBody (coloured : Bool) (entry : String × Finding) : String :=
  "  " ++ severityText coloured entry.2.severity ++ " " ++ entry.1 ++ " " ++
    paint coloured { style := .bold } entry.2.category ++ ": " ++ entry.2.description

private theorem findingShows_findingBody (coloured : Bool) (entry : String × Finding) :
    FindingShows coloured entry (findingBody coloured entry) := by
  obtain ⟨label, category, severity, description⟩ := entry
  have named : Painted "1" coloured category (paint coloured { style := .bold } category) :=
    painted_paint coloured _ _ (by decide)
  have tagged : ∃ codes tag, Tag severity codes tag ∧
      Painted codes coloured tag (severityText coloured severity) := by
    cases severity with
    | high => exact ⟨_, _, .high, painted_paint coloured _ _ (by decide)⟩
    | medium => exact ⟨_, _, .medium, painted_paint coloured _ _ (by decide)⟩
    | low => exact ⟨_, _, .low, painted_paint coloured _ _ (by decide)⟩
  obtain ⟨codes, tag, isTag, painted⟩ := tagged
  exact .line isTag painted named

theorem findingLine_eq (coloured : Bool) {label padded : String}
    (isPadded : padRight 12 label = padded) :
    findingLine coloured label = fun finding => findingBody coloured (padded, finding) ++ "\n" := by
  subst isPadded
  rfl

private theorem findingLines_eq (coloured : Bool) (audit : Audit) :
    findingLines coloured audit = ofLines ((labelled audit).map (findingBody coloured)) := by
  have security : padRight 12 "security" = "security    " := by decide
  have performance : padRight 12 "performance" = "performance " := by decide
  have smell : padRight 12 "smell" = "smell       " := by decide
  rw [findingLines, findingLine_eq coloured security, findingLine_eq coloured performance,
    findingLine_eq coloured smell, ofLines, labelled]
  simp only [List.map_append, List.map_map, Function.comp_def]

/-! Single reports -/

/-- The first line: the path, the hint or a dash, the language that was detected, and the score in
the ink of its range. -/
inductive HeadingShows (coloured : Bool) (report : Report) : String → Prop where
  | line {path language places score : String} :
      Painted "1" coloured report.path path →
      Painted "36" coloured report.audit.metrics.detectedLanguage language →
      Decimal.ShowsPlaces report.audit.score.toFloat places →
      Painted
        (if 15.0 < report.audit.score.toFloat then "31"
         else if 8.0 < report.audit.score.toFloat then "33" else "32") coloured places score →
      HeadingShows coloured report
        (path ++ " [" ++ (if report.hint.isEmpty then "-" else report.hint) ++ " / detected " ++
          language ++ "] complexity " ++ score)

/-- A line of names, if there are any. -/
inductive NamesShow (label : String) : List String → List String → Prop where
  | nothing : NamesShow label [] []
  | line {first : String} {others : List String} :
      NamesShow label (first :: others)
        ["  " ++ label ++ ": " ++ ", ".intercalate (first :: others)]

/-- A line of its own says that there are no findings. -/
inductive QuietShows (coloured : Bool) (audit : Audit) : List String → Prop where
  | line {shown : String} :
      labelled audit = [] → Painted "32" coloured "No findings." shown →
      QuietShows coloured audit ["  " ++ shown]
  | nothing : labelled audit ≠ [] → QuietShows coloured audit []

def countsLine (metrics : Metrics) : String :=
  "  " ++ toString metrics.lines ++ " lines (" ++ toString metrics.solidLines ++
    " non-empty), " ++ toString metrics.bytes ++ " chars, avg line " ++
    toString metrics.averageLineLength

/-- The lines of a report, the last of which is empty. -/
inductive BlockShows (coloured : Bool) (report : Report) : List String → Prop where
  | lines {heading : String} {functions classes imports findings quiet : List String} :
      HeadingShows coloured report heading →
      NamesShow "functions" report.audit.metrics.functions functions →
      NamesShow "classes" report.audit.metrics.classes classes →
      NamesShow "imports" report.audit.metrics.imports imports →
      List.Forall₂ (FindingShows coloured) (labelled report.audit) findings →
      QuietShows coloured report.audit quiet →
      BlockShows coloured report
        (heading :: countsLine report.audit.metrics ::
          (functions ++ classes ++ imports ++ findings ++ quiet ++ [""]))

private theorem exists_nameLine (label : String) (labels : List String) :
    ∃ lines, NamesShow label labels lines ∧ nameLine label labels = ofLines lines := by
  cases labels with
  | nil => exact ⟨[], .nothing, rfl⟩
  | cons first others =>
      refine ⟨_, .line, ?_⟩
      rw [nameLine, ofLines_singleton]
      rfl

theorem labelled_eq_nil_iff {audit : Audit} :
    labelled audit = [] ↔ audit.hasNoFindings = true := by
  simp [labelled, Audit.hasNoFindings, Audit.totalFindings, and_assoc]

private theorem exists_quiet (coloured : Bool) (audit : Audit) :
    ∃ lines, QuietShows coloured audit lines ∧
      (if audit.hasNoFindings then
        "  " ++ paint coloured { colour := some .green } "No findings." ++ "\n"
       else "") = ofLines lines := by
  by_cases quiet : audit.hasNoFindings = true
  · have painted : Painted "32" coloured "No findings."
        (paint coloured { colour := some .green } "No findings.") :=
      painted_paint coloured _ _ (by decide)
    refine ⟨_, .line (labelled_eq_nil_iff.mpr quiet) painted, ?_⟩
    rw [if_pos quiet, ofLines_singleton]
  · exact ⟨[], .nothing fun nothing => quiet (labelled_eq_nil_iff.mp nothing), if_neg quiet⟩

private theorem painted_scoreText (coloured : Bool) (score : Float) :
    Painted (if 15.0 < score then "31" else if 8.0 < score then "33" else "32") coloured
      (Decimal.twoPlaces score) (scoreText coloured score) := by
  rw [scoreText]
  refine painted_paint coloured _ _ ?_
  split_ifs <;> decide

/-- The first line, without its end. -/
def headingBody (coloured : Bool) (report : Report) : String :=
  paint coloured { style := .bold } report.path ++ " [" ++
    (if report.hint.isEmpty then "-" else report.hint) ++ " / detected " ++
    paint coloured { colour := some .cyan } report.audit.metrics.detectedLanguage ++
    "] complexity " ++ scoreText coloured report.audit.score.toFloat

private theorem headingShows_headingBody (coloured : Bool) (report : Report) :
    HeadingShows coloured report (headingBody coloured report) := by
  have path : Painted "1" coloured report.path (paint coloured { style := .bold } report.path) :=
    painted_paint coloured _ _ (by decide)
  have language : Painted "36" coloured report.audit.metrics.detectedLanguage
      (paint coloured { colour := some .cyan } report.audit.metrics.detectedLanguage) :=
    painted_paint coloured _ _ (by decide)
  have places := Decimal.showsPlaces_twoPlaces report.audit.score.toFloat
  have score := painted_scoreText coloured report.audit.score.toFloat
  exact HeadingShows.line path language places score

private theorem fileText_eq (coloured : Bool) (report : Report) :
    fileText coloured report =
      headingBody coloured report ++ "\n" ++ (countsLine report.audit.metrics ++ "\n" ++
        (nameLine "functions" report.audit.metrics.functions ++
          nameLine "classes" report.audit.metrics.classes ++
          nameLine "imports" report.audit.metrics.imports ++ findingLines coloured report.audit ++
          (if report.audit.hasNoFindings then
            "  " ++ paint coloured { colour := some .green } "No findings." ++ "\n"
           else "") ++ "\n")) := by
  unfold fileText headingBody countsLine
  simp only [String.append_assoc]

private theorem exists_block (coloured : Bool) (report : Report) :
    ∃ lines, BlockShows coloured report lines ∧ fileText coloured report = ofLines lines := by
  obtain ⟨functions, functionsShown, functionsText⟩ :=
    exists_nameLine "functions" report.audit.metrics.functions
  obtain ⟨classes, classesShown, classesText⟩ :=
    exists_nameLine "classes" report.audit.metrics.classes
  obtain ⟨imports, importsShown, importsText⟩ :=
    exists_nameLine "imports" report.audit.metrics.imports
  obtain ⟨quiet, quietShown, quietText⟩ := exists_quiet coloured report.audit
  have findings : List.Forall₂ (FindingShows coloured) (labelled report.audit)
      ((labelled report.audit).map (findingBody coloured)) := by
    rw [List.forall₂_map_right_iff, List.forall₂_same]
    exact fun entry _ => findingShows_findingBody coloured entry
  refine ⟨_, .lines (headingShows_headingBody coloured report) functionsShown classesShown
    importsShown findings quietShown, ?_⟩
  rw [fileText_eq, functionsText, classesText, importsText, quietText, findingLines_eq]
  simp only [ofLines_cons, ofLines_append]
  rfl

/-! All reports -/

/-- How many findings of a kind there are in all reports. -/
def total (kind : Audit → List Finding) (reports : List Report) : Nat :=
  (reports.map fun report => (kind report.audit).length).sum

/-- The line that counts the reports and their findings, in the ink that warns of security
issues. -/
inductive ClosingShows (coloured : Bool) (reports : List Report) : String → Prop where
  | line {shown : String} :
      Painted (if total Audit.security reports = 0 then "1;32" else "1;31") coloured
        (toString reports.length ++ " file(s): " ++ toString (total Audit.security reports) ++
          " security issue(s), " ++ toString (total Audit.performance reports) ++
          " performance suggestion(s), " ++ toString (total Audit.smells reports) ++
          " code smell(s)")
        shown →
      ClosingShows coloured reports shown

inductive TextShows (coloured : Bool) (reports : List Report) : String → Prop where
  | lines {blocks : List (List String)} {closing : String} :
      List.Forall₂ (BlockShows coloured) reports blocks → ClosingShows coloured reports closing →
      TextShows coloured reports (ofLines (blocks.flatten ++ [closing]))

private theorem length_flatMap_kind (kind : Audit → List Finding) (reports : List Report) :
    (reports.flatMap fun report => kind report.audit).length = total kind reports := by
  rw [List.length_flatMap, total]

private theorem closingShows_closingLine (coloured : Bool) (reports : List Report) :
    ClosingShows coloured reports (closingLine coloured reports) := by
  unfold closingLine
  simp only [length_flatMap_kind]
  refine .line (painted_paint coloured _ _ ?_)
  rcases Nat.eq_zero_or_pos (total Audit.security reports) with nothing | several
  · rw [if_pos nothing, nothing, if_neg (Nat.lt_irrefl 0)]
    decide
  · rw [if_neg several.ne', if_pos several]
    decide

/-- The text of reports shows them and nothing else. -/
theorem textShows_text (coloured : Bool) (reports : List Report) :
    TextShows coloured reports (text coloured reports) := by
  have blocks : ∃ blocks, List.Forall₂ (BlockShows coloured) reports blocks ∧
      String.join (reports.map (fileText coloured)) = ofLines blocks.flatten := by
    induction reports with
    | nil => exact ⟨[], .nil, rfl⟩
    | cons report reports ih =>
        obtain ⟨blocks, shown, same⟩ := ih
        obtain ⟨block, blockShown, sameBlock⟩ := exists_block coloured report
        refine ⟨block :: blocks, .cons blockShown shown, ?_⟩
        rw [List.map_cons, String.join_cons, same, sameBlock, List.flatten_cons, ofLines_append]
  obtain ⟨blocks, shown, same⟩ := blocks
  have lines : text coloured reports =
      ofLines (blocks.flatten ++ [closingLine coloured reports]) := by
    rw [text, same, ofLines_append, ofLines_singleton, String.append_assoc]
  rw [lines]
  exact .lines shown (closingShows_closingLine coloured reports)

end Report

end SnippetAudit
