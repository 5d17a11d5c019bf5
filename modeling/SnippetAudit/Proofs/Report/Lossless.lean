import SnippetAudit.Proofs.Metrics.Names
import SnippetAudit.Proofs.Stored.RowText
import SnippetAudit.Proofs.Text.Encoding

/-!
What the JSON text of reports shows.

The relations below say which values show which part of a report, without reference to how the
parts are written. The text spells one value only, and that shows the reports in order, in full or
in their stored form. A value shows at most one report in full, apart from a score that is not
finite, so the reports can be told from their text.
-/

set_option autoImplicit false

namespace SnippetAudit

namespace Json

/-- The text spells this value and no other. -/
structure SpellsOnly (value : Json) (text : List Char) : Prop where
  spells : Spells value text
  only : ∀ other, SpellsPadded other text → other = value

/-- A text without blanks around it that spells a value is read as that value, and so spells no
other. -/
theorem Spells.spellsOnly {value : Json} {text : List Char} (spelled : Spells value text) :
    read? text = some value ∧ SpellsOnly value text := by
  have padded := SpellsPadded.padded blanks_nil spelled blanks_nil
  rw [List.nil_append, List.append_nil] at padded
  have read := read?_spelled padded
  refine ⟨read, spelled, fun other otherSpelled => ?_⟩
  exact Option.some.inj ((read?_spelled otherSpelled).symm.trans read)

theorem spells_write (style : Style) {value : Json} (writable : Writable value) :
    Spells value (value.write style 0 []) := by
  obtain ⟨text, spelled, written⟩ := write_spells style 0 value writable
  rwa [written, List.append_nil]

theorem spells_pretty {value : Json} (writable : Writable value) :
    Spells value value.pretty.toList := by
  rw [pretty, String.toList_ofList]
  exact spells_write .indented writable

private theorem spells_compact {value : Json} (writable : Writable value) :
    Spells value value.compact.toList := by
  rw [compact, String.toList_ofList]
  exact spells_write .compact writable

private theorem writable_score (score : Score) : Writable (.ofFloat score.toFloat) :=
  (Stored.written_score (some score) rfl).2.1

theorem writable_ofNat (n : Nat) : Writable (.ofNat n) :=
  Row.wellFormed_ofNat n

theorem writable_array {α : Type} {toJson : α → Json} (writable : ∀ item, Writable (toJson item))
    (items : List α) : Writable (.array (items.map toJson)) := by
  induction items with
  | nil => trivial
  | cons item items ih => exact ⟨writable item, ih⟩

/-! Numbers and names -/

/-- A number without sign, point and exponent. -/
inductive ShowsNat (n : Nat) : Json → Prop where
  | number {numeral : Numeral} : numeral.toNat? = some n → ShowsNat n (.number numeral)

/-- The score as a number if it is finite, and otherwise null. -/
inductive ShowsScore (score : Score) : Json → Prop where
  | number {numeral : Numeral} :
      score.isFinite = true → numeral.toFloat? = some score.toFloat →
      ShowsScore score (.number numeral)
  | null : score.isFinite = false → ShowsScore score .null

/-- Strings that ascend strictly by their bytes. -/
inductive ShowsNames (labels : List String) : Json → Prop where
  | array :
      labels.Pairwise (fun left right =>
        Text.Utf8.encode left.toList < Text.Utf8.encode right.toList) →
      ShowsNames labels (.array (labels.map .string))

private theorem showsNat_ofNat (n : Nat) : ShowsNat n (.ofNat n) :=
  .number (by simp [Numeral.toNat?, Numeral.ofNat, Numeral.valueOf_digitsOf])

private theorem showsScore_ofFloat (score : Score) : ShowsScore score (.ofFloat score.toFloat) := by
  rcases ofFloat_forms score.toFloat with ⟨finite, numeral, written, _, read⟩ | ⟨infinite, written⟩
  · rw [written]
    exact .number finite read
  · rw [written]
    exact .null infinite

theorem ShowsNat.eq {m n : Nat} {value : Json} (first : ShowsNat m value)
    (second : ShowsNat n value) : m = n := by
  cases first with
  | number firstRead =>
      cases second with
      | number secondRead => exact Option.some.inj (firstRead.symm.trans secondRead)

theorem ShowsScore.eq_or {left right : Score} {value : Json} (first : ShowsScore left value)
    (second : ShowsScore right value) :
    left = right ∨ left.isFinite = false ∧ right.isFinite = false := by
  cases first with
  | number firstFinite firstRead =>
      cases second with
      | number secondFinite secondRead =>
          have same : left.toFloat = right.toFloat :=
            Option.some.inj (firstRead.symm.trans secondRead)
          rw [← Score.ofFloat_toFloat firstFinite, same, Score.ofFloat_toFloat secondFinite]
          exact .inl rfl
  | null firstInfinite =>
      cases second with
      | null secondInfinite => exact .inr ⟨firstInfinite, secondInfinite⟩

theorem ShowsNames.eq {labels others : List String} {value : Json}
    (first : ShowsNames labels value) (second : ShowsNames others value) : labels = others := by
  cases first with
  | array _ =>
      generalize shown : Json.array (labels.map .string) = value at second
      cases second with
      | array _ =>
          exact List.map_injective_iff.mpr (fun _ _ => Json.string.inj) (Json.array.inj shown)

end Json

open Json (ShowsNat ShowsScore ShowsNames)

/-! Findings -/

inductive Finding.Shows : Finding → Json → Prop where
  | members {category description : String} {severity : Severity} :
      Shows { category, severity, description }
        (.object [("type", .string category), ("severity", .string severity.word),
          ("description", .string description)])

inductive Finding.ListShows (findings : List Finding) : Json → Prop where
  | array {items : List Json} :
      List.Forall₂ Finding.Shows findings items → ListShows findings (.array items)

theorem Finding.shows_toJson (finding : Finding) : finding.Shows finding.toJson :=
  .members

theorem Finding.listShows_listToJson (findings : List Finding) :
    ListShows findings (listToJson findings) := by
  refine .array ?_
  rw [List.forall₂_map_right_iff, List.forall₂_same]
  exact fun finding _ => finding.shows_toJson

theorem Severity.word_injective {left right : Severity} (same : left.word = right.word) :
    left = right :=
  Option.some.inj ((ofWord?_eq_some_iff.mpr rfl).symm.trans (ofWord?_eq_some_iff.mpr same))

theorem Finding.Shows.eq {left right : Finding} {value : Json} (first : left.Shows value)
    (second : right.Shows value) : left = right := by
  cases first with
  | @members category description severity =>
      generalize word : severity.word = text at second
      cases second with
      | members => rw [Severity.word_injective word]

theorem Finding.ListShows.eq {left right : List Finding} {value : Json}
    (first : ListShows left value) (second : ListShows right value) : left = right := by
  cases first with
  | array firstItems =>
      cases second with
      | array secondItems =>
          exact List.left_unique_forall₂' (fun _ _ _ first second => first.eq second) firstItems
            secondItems

/-! Measurements and audits -/

/-- The lists of names are sets, in ascending order. -/
structure Metrics.NamesAscend (metrics : Metrics) : Prop where
  functions : metrics.functions.Pairwise (· < ·)
  classes : metrics.classes.Pairwise (· < ·)
  imports : metrics.imports.Pairwise (· < ·)

inductive Metrics.Shows (metrics : Metrics) : Json → Prop where
  | members {lines solidLines bytes bytesWithoutSpaces average functions classes imports : Json} :
      ShowsNat metrics.lines lines → ShowsNat metrics.solidLines solidLines →
      ShowsNat metrics.bytes bytes → ShowsNat metrics.bytesWithoutSpaces bytesWithoutSpaces →
      ShowsNat metrics.averageLineLength average → ShowsNames metrics.functions functions →
      ShowsNames metrics.classes classes → ShowsNames metrics.imports imports →
      Shows metrics
        (.object [("lines_of_code", lines), ("non_empty_lines", solidLines),
          ("character_count", bytes), ("character_count_no_spaces", bytesWithoutSpaces),
          ("average_line_length", average), ("functions", functions), ("classes", classes),
          ("imports", imports), ("detected_language", .string metrics.detectedLanguage)])

inductive Audit.Shows (audit : Audit) : Json → Prop where
  | members {score security performance smells metrics : Json} :
      ShowsScore audit.score score → Finding.ListShows audit.security security →
      Finding.ListShows audit.performance performance → Finding.ListShows audit.smells smells →
      audit.metrics.Shows metrics →
      Shows audit
        (.object [("complexity_score", score), ("security_issues", security),
          ("performance_suggestions", performance), ("code_smells", smells), ("metrics", metrics)])

inductive Report.Shows (report : Report) : Json → Prop where
  | members {result : Json} :
      report.audit.Shows result →
      Shows report
        (.object [("path", .string report.path), ("language_hint", .string report.hint),
          ("sha256", .string report.hash), ("result", result)])

theorem Json.showsNames_namesToJson {labels : List String} (ascending : labels.Pairwise (· < ·)) :
    ShowsNames labels (Report.namesToJson labels) :=
  .array (ascending.imp fun less =>
    Text.Utf8.encode_lt_encode (String.lt_iff_toList_lt.mp less))

theorem Report.shows_fileToJson {report : Report} (ascend : report.audit.metrics.NamesAscend) :
    report.Shows report.fileToJson := by
  have metrics : report.audit.metrics.Shows (metricsToJson report.audit.metrics) :=
    .members (Json.showsNat_ofNat _) (Json.showsNat_ofNat _) (Json.showsNat_ofNat _)
      (Json.showsNat_ofNat _) (Json.showsNat_ofNat _)
      (Json.showsNames_namesToJson ascend.functions) (Json.showsNames_namesToJson ascend.classes)
      (Json.showsNames_namesToJson ascend.imports)
  exact .members (.members (Json.showsScore_ofFloat _) (Finding.listShows_listToJson _)
    (Finding.listShows_listToJson _) (Finding.listShows_listToJson _) metrics)

/-- The names that are found in a source are sets. -/
theorem Metrics.pairwise_namesIn (catalog : Catalog) (kind : Kind) (language : String)
    (text : List Char) : (namesIn catalog kind language text).Pairwise (· < ·) := by
  rw [← distinctNames_namesIn]
  exact pairwise_distinctNames _

theorem Report.namesAscend_ofSource (catalog : Catalog) (rules : Rules)
    (path hint source : String) :
    (ofSource catalog rules path hint source).audit.metrics.NamesAscend :=
  ⟨Metrics.pairwise_namesIn .., Metrics.pairwise_namesIn .., Metrics.pairwise_namesIn ..⟩

/-! Reports told from their text -/

theorem Metrics.Shows.eq {left right : Metrics} {value : Json} (first : left.Shows value)
    (second : right.Shows value) : left = right := by
  obtain ⟨_, _, _, _, _, _, _, _, _⟩ := left
  obtain ⟨_, _, _, _, _, _, _, _, _⟩ := right
  cases first with
  | members lines solid bytes dense average functions classes imports =>
      cases second with
      | members lines' solid' bytes' dense' average' functions' classes' imports' =>
          congr 1
          · exact lines.eq lines'
          · exact solid.eq solid'
          · exact bytes.eq bytes'
          · exact dense.eq dense'
          · exact average.eq average'
          · exact functions.eq functions'
          · exact classes.eq classes'
          · exact imports.eq imports'

/-- Audits that differ at most in a score that is not finite. -/
structure Audit.Alike (left right : Audit) : Prop where
  score : left.score = right.score ∨ left.score.isFinite = false ∧ right.score.isFinite = false
  security : left.security = right.security
  performance : left.performance = right.performance
  smells : left.smells = right.smells
  metrics : left.metrics = right.metrics

structure Report.Alike (left right : Report) : Prop where
  path : left.path = right.path
  hint : left.hint = right.hint
  hash : left.hash = right.hash
  audit : left.audit.Alike right.audit

theorem Audit.Shows.alike {left right : Audit} {value : Json} (first : left.Shows value)
    (second : right.Shows value) : left.Alike right := by
  cases first with
  | members score security performance smells metrics =>
      cases second with
      | members score' security' performance' smells' metrics' =>
          exact ⟨score.eq_or score', security.eq security', performance.eq performance',
            smells.eq smells', metrics.eq metrics'⟩

theorem Report.Shows.alike {left right : Report} {value : Json} (first : left.Shows value)
    (second : right.Shows value) : left.Alike right := by
  obtain ⟨_, _, _, _⟩ := left
  obtain ⟨_, _, _, _⟩ := right
  cases first with
  | members firstAudit =>
      cases second with
      | members secondAudit => exact ⟨rfl, rfl, rfl, firstAudit.alike secondAudit⟩

namespace Report

private theorem forall₂_alike {reports others : List Report} {items : List Json}
    (first : List.Forall₂ Shows reports items) (second : List.Forall₂ Shows others items) :
    List.Forall₂ Alike reports others := by
  induction first generalizing others with
  | nil =>
      cases second
      exact .nil
  | cons shown _ ih =>
      cases second with
      | cons otherShown rest => exact .cons (shown.alike otherShown) (ih rest)

theorem forall₂_shows {reports : List Report}
    (ascend : ∀ report ∈ reports, report.audit.metrics.NamesAscend) :
    List.Forall₂ Shows reports (reports.map fileToJson) := by
  rw [List.forall₂_map_right_iff, List.forall₂_same]
  exact fun report member => shows_fileToJson (ascend report member)

theorem writable_namesToJson (labels : List String) : Json.Writable (namesToJson labels) :=
  Json.writable_array (fun _ => by trivial) labels

private theorem writable_metricsToJson (metrics : Metrics) :
    Json.Writable (metricsToJson metrics) :=
  ⟨Json.writable_ofNat _, Json.writable_ofNat _, Json.writable_ofNat _, Json.writable_ofNat _,
    Json.writable_ofNat _, writable_namesToJson _, writable_namesToJson _, writable_namesToJson _,
    trivial, trivial⟩

private theorem writable_auditToJson (audit : Audit) : Json.Writable (auditToJson audit) :=
  ⟨Json.writable_score _, Finding.writable_listToJson _, Finding.writable_listToJson _,
    Finding.writable_listToJson _, writable_metricsToJson _, trivial⟩

private theorem writable_fileToJson (report : Report) : Json.Writable report.fileToJson :=
  ⟨trivial, trivial, trivial, writable_auditToJson _, trivial⟩

theorem spells_jsonText (reports : List Report) :
    Json.Spells (.array (reports.map fileToJson)) (jsonText reports).toList :=
  Json.spells_pretty (Json.writable_array writable_fileToJson reports)

/-- The text of reports whose names are sets, as they are in the report on any source, spells one
value only and is read as that value: an array that shows the reports in order. Two lists of reports
with the same text differ at most in scores that are not finite. -/
theorem jsonText_shows_reports :
    (∀ (catalog : Catalog) (rules : Rules) (path hint source : String),
      (ofSource catalog rules path hint source).audit.metrics.NamesAscend) ∧
    ∀ reports : List Report, (∀ report ∈ reports, report.audit.metrics.NamesAscend) →
      (∃ items, Json.SpellsOnly (.array items) (jsonText reports).toList ∧
        Json.read? (jsonText reports).toList = some (.array items) ∧
        List.Forall₂ Shows reports items) ∧
      ∀ others : List Report, (∀ other ∈ others, other.audit.metrics.NamesAscend) →
        jsonText reports = jsonText others → List.Forall₂ Alike reports others := by
  refine ⟨namesAscend_ofSource, fun reports ascend => ⟨?_, ?_⟩⟩
  · obtain ⟨read, only⟩ := (spells_jsonText reports).spellsOnly
    exact ⟨reports.map fileToJson, only, read, forall₂_shows ascend⟩
  · intro others othersAscend sameText
    have read := (spells_jsonText reports).spellsOnly.1
    rw [sameText, (spells_jsonText others).spellsOnly.1] at read
    have items : others.map fileToJson = reports.map fileToJson :=
      Json.array.inj (Option.some.inj read)
    exact forall₂_alike (forall₂_shows ascend) (items ▸ forall₂_shows othersAscend)

/-- A score that is not a number, a path and names with quotes, backslashes and control characters,
and a second report that is empty. -/
def awkwardReports : List Report :=
  [{ path := "a\"\\", hint := "\x00", hash := "é"
     audit :=
       { score := ⟨0x7FF8000000000000⟩, performance := [], smells := []
         security := [{ category := "\n", severity := .low, description := "\t" }]
         metrics := { lines := 1, imports := ["\"", "\\x", "é"] } } },
   { path := "", hint := "", hash := ""
     audit :=
       { score := .ofFloat (-0.0), security := [], performance := [], smells := [],
         metrics := {} } }]

theorem jsonText_shows_awkwardReports :
    (∀ report ∈ awkwardReports, report.audit.metrics.NamesAscend) ∧
      ∃ items, Json.read? (jsonText awkwardReports).toList = some (.array items) ∧
        List.Forall₂ Shows awkwardReports items := by
  have ascend : ∀ report ∈ awkwardReports, report.audit.metrics.NamesAscend :=
    List.forall_mem_cons.mpr ⟨⟨.nil, .nil, by decide⟩,
      List.forall_mem_singleton.mpr ⟨.nil, .nil, .nil⟩⟩
  obtain ⟨⟨items, _, read, shown⟩, _⟩ := jsonText_shows_reports.2 awkwardReports ascend
  exact ⟨ascend, items, read, shown⟩

end Report

/-! Stored forms -/

/-- A text that spells an array of the findings. -/
inductive Column.Shows (findings : List Finding) : Json → Prop where
  | text {text : String} {value : Json} :
      Json.SpellsOnly value text.toList → Finding.ListShows findings value →
      Shows findings (.string text)

/-- The part of a report that is stored, under its path. -/
inductive Report.StoredShows (report : Report) : Json → Prop where
  | members {score security performance smells : Json} :
      ShowsScore report.audit.score score → Column.Shows report.audit.security security →
      Column.Shows report.audit.performance performance →
      Column.Shows report.audit.smells smells →
      StoredShows report
        (.object [("path", .string report.path), ("complexity_score", score),
          ("security_issues", security), ("performance_suggestions", performance),
          ("code_smells", smells)])

theorem Column.shows_ofFindings (findings : List Finding) :
    Shows findings (Column.ofFindings findings).toJson := by
  have spelled := Json.spells_compact (Finding.writable_listToJson findings)
  exact .text spelled.spellsOnly.2 (Finding.listShows_listToJson findings)

namespace Report

theorem storedShows_withPath (report : Report) :
    report.StoredShows (Stored.withPath report.path (Stored.ofAudit report.audit)) :=
  .members (Json.showsScore_ofFloat _) (Column.shows_ofFindings _) (Column.shows_ofFindings _)
    (Column.shows_ofFindings _)

theorem spells_storedText (reports : List Report) :
    Json.Spells
      (.array (reports.map fun report =>
        Stored.withPath report.path (Stored.ofAudit report.audit)))
      (storedText reports).toList := by
  refine Json.spells_pretty (Json.writable_array (fun report => ?_) reports)
  exact Stored.writable_members (Stored.foreign_path report.path) (Stored.ofAudit report.audit)

end Report

end SnippetAudit
