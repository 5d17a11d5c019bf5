import SnippetAudit.Proofs.Decimal.ReadBack
import SnippetAudit.Proofs.Score
import SnippetAudit.Proofs.Stored.RecordGrammar
import SnippetAudit.Report.Basic

/-!
Stored records are read back from what is written for them.

What is written for a record means that record, apart from a score that is not finite, for which
null is written. So a record with a finite score is read back as it was, and an audit is restored
from its record with all its findings, also where members that are no part of the record stand
before it, as the path does in a row of a report.
-/

set_option autoImplicit false

namespace SnippetAudit

/-! Members -/

/-- If no key is repeated, an object gives the value of every member. -/
theorem Json.gives_of_mem {members : List (String × Json)} {key : String} {value : Json}
    (distinct : (members.map Prod.fst).Nodup) (member : (key, value) ∈ members) :
    Json.Gives key members (some value) := by
  obtain ⟨before, after, rfl⟩ := List.append_of_mem member
  rw [List.map_append, List.map_cons, List.nodup_middle, List.nodup_cons, List.mem_append,
    not_or] at distinct
  exact .once rfl distinct.1.1 distinct.1.2

theorem Json.Gives.append_left {before members : List (String × Json)} {key : String}
    {value : Json} (absent : key ∉ before.map Prod.fst)
    (gives : Json.Gives key members (some value)) :
    Json.Gives key (before ++ members) (some value) := by
  cases gives with
  | @once earlier later _ split notEarlier notLater =>
      rw [split, ← List.append_assoc]
      refine .once rfl ?_ notLater
      rw [List.map_append, List.mem_append]
      exact not_or.mpr ⟨absent, notEarlier⟩

theorem Json.membersWritable_append {before members : List (String × Json)}
    (beforeWritable : Json.MembersWritable before) (writable : Json.MembersWritable members) :
    Json.MembersWritable (before ++ members) := by
  induction before with
  | nil => exact writable
  | cons member before ih => exact ⟨beforeWritable.1, ih beforeWritable.2⟩

theorem Json.membersKeepable_append (depth : Nat) (before members : List (String × Json)) :
    Json.membersKeepable depth (before ++ members) =
      (Json.membersKeepable depth before && Json.membersKeepable depth members) := by
  induction before with
  | nil => rfl
  | cons member before ih =>
      obtain ⟨key, value⟩ := member
      simp only [List.cons_append, Json.membersKeepable, ih, Bool.and_assoc]

/-! Findings -/

theorem Finding.means_toJson (finding : Finding) : FindingMeans finding.toJson finding := by
  have distinct : ["type", "severity", "description"].Nodup := by decide
  exact .members (Json.gives_of_mem distinct (by simp)) (Json.gives_of_mem distinct (by simp))
    (.word finding.severity) (Json.gives_of_mem distinct (by simp))

theorem Finding.means_listToJson (findings : List Finding) :
    List.Forall₂ FindingMeans (findings.map Finding.toJson) findings := by
  induction findings with
  | nil => exact .nil
  | cons finding findings ih => exact .cons finding.means_toJson ih

theorem Finding.writable_listToJson (findings : List Finding) :
    Json.Writable (Finding.listToJson findings) := by
  unfold Finding.listToJson Json.Writable
  induction findings with
  | nil => trivial
  | cons finding findings ih => exact ⟨⟨trivial, trivial, trivial, trivial⟩, ih⟩

/-- Findings are nested two levels deep. -/
theorem Finding.keepable_listToJson (findings : List Finding) (depth : Nat) :
    Json.keepable (depth + 2) (Finding.listToJson findings) = true := by
  have each : ∀ finding : Finding, Json.keepable (depth + 1) finding.toJson = true := by
    intro finding
    simp [Finding.toJson, Json.keepable, Json.membersKeepable]
  have all : Json.itemsKeepable (depth + 1) (findings.map Finding.toJson) = true := by
    induction findings with
    | nil => rfl
    | cons finding findings ih =>
        rw [List.map_cons, Json.itemsKeepable, each, ih]
        rfl
  simpa [Finding.listToJson, Json.keepable] using all

/-! Columns and scores -/

namespace Column

private theorem means_toJson (column : Column) : ColumnMeans (some column.toJson) column := by
  cases column with
  | text json => exact .text
  | list findings => exact .list (Finding.means_listToJson findings)

theorem writable_toJson (column : Column) : Json.Writable column.toJson := by
  cases column with
  | text json => trivial
  | list findings => exact Finding.writable_listToJson findings

private theorem keepable_toJson (column : Column) (depth : Nat) :
    Json.keepable (depth + 2) column.toJson = true := by
  cases column with
  | text json => rfl
  | list findings => exact Finding.keepable_listToJson findings depth

/-- The findings of a text column are those that it was made from. -/
theorem findings?_ofFindings (findings : List Finding) :
    (Column.ofFindings findings).findings? = some findings := by
  obtain ⟨rest, bracket⟩ :
      ∃ rest, (Json.compact (Finding.listToJson findings)).toList = '[' :: rest := by
    rw [Json.compact, String.toList_ofList]
    cases findings <;> exact ⟨_, rfl⟩
  have notBlank : Text.isAllWhite (Json.compact (Finding.listToJson findings)).toList = false := by
    rw [bracket]
    rfl
  have read : Json.read? (Json.compact (Finding.listToJson findings)).toList =
      some (.array (findings.map Finding.toJson)) := by
    rw [Json.compact, String.toList_ofList,
      Json.read?_write _ _ (Finding.writable_listToJson findings)]
    rfl
  simp only [Column.ofFindings, Column.findings?, notBlank, read]
  exact Finding.mapM_ofJson?_eq_some_iff.mpr (Finding.means_listToJson findings)

end Column

namespace Stored

/-- What is written for a score is null if the score is not finite. -/
theorem written_score (score : Option Score) {value : Json}
    (written : value = (score.map fun score => Json.ofFloat score.toFloat).getD .null) :
    ScoreMeans (some value) (score.filter Score.isFinite) ∧ Json.Writable value ∧
      ∀ depth, Json.keepable depth value = true := by
  subst written
  cases score with
  | none => exact ⟨.null, trivial, fun _ => rfl⟩
  | some score =>
      change ScoreMeans (some (Json.ofFloat score.toFloat)) _ ∧
        Json.Writable (Json.ofFloat score.toFloat) ∧
        ∀ depth, Json.keepable depth (Json.ofFloat score.toFloat) = true
      rcases Json.ofFloat_forms score.toFloat with
        ⟨finite, numeral, written, wellFormed, read⟩ | ⟨infinite, written⟩
      · have number := ScoreMeans.number read
        rw [Score.ofFloat_toFloat finite] at number
        have kept : score.isFinite = true := finite
        rw [written, Option.filter_some_pos kept]
        refine ⟨number, wellFormed, fun depth => ?_⟩
        rw [Json.keepable, read]
        rfl
      · have dropped : score.isFinite = false := infinite
        rw [written, Option.filter_some_neg dropped]
        exact ⟨.null, trivial, fun _ => rfl⟩

/-! Records -/

/-- What can be read back of a record: all but a score that is not finite. -/
def readable (stored : Stored) : Stored :=
  { stored with score := stored.score.filter Score.isFinite }

/-- The keys of a record. -/
def knownKeys : List String :=
  ["complexity_score", "security_issues", "performance_suggestions", "code_smells"]

/-- Members that are no part of a record, and may stand before it. -/
structure Foreign (before : List (String × Json)) : Prop where
  unknown : ∀ key ∈ knownKeys, key ∉ before.map Prod.fst
  writable : Json.MembersWritable before
  kept : Json.membersKeepable (Column.nestingLimit - 1) before = true

theorem foreign_nil : Foreign [] :=
  ⟨by simp, trivial, rfl⟩

theorem foreign_path (path : String) : Foreign [("path", .string path)] := by
  have other : ∀ key ∈ knownKeys, key ∉ ["path"] := by decide
  exact ⟨other, ⟨trivial, trivial⟩, rfl⟩

/-- What is written for a record means what can be read back of it. -/
theorem means_members {before : List (String × Json)} (foreign : Foreign before)
    (stored : Stored) : Means (.object (before ++ stored.members)) stored.readable := by
  have distinct : (stored.members.map Prod.fst).Nodup := (by decide : knownKeys.Nodup)
  have gives : ∀ {key : String} {value : Json}, (key, value) ∈ stored.members →
      Json.Gives key (before ++ stored.members) (some value) := by
    intro key value member
    have known : key ∈ knownKeys := List.mem_map_of_mem (f := Prod.fst) member
    exact (Json.gives_of_mem distinct member).append_left (foreign.unknown key known)
  exact ⟨_, _, _, _,
    .members (gives (by simp [members])) (gives (by simp [members])) (gives (by simp [members]))
      (gives (by simp [members])),
    (written_score stored.score rfl).1, stored.security.means_toJson,
    stored.performance.means_toJson, stored.smells.means_toJson⟩

theorem writable_members {before : List (String × Json)} (foreign : Foreign before)
    (stored : Stored) : Json.Writable (.object (before ++ stored.members)) :=
  Json.membersWritable_append foreign.writable
    ⟨(written_score stored.score rfl).2.1, stored.security.writable_toJson,
      stored.performance.writable_toJson, stored.smells.writable_toJson, trivial⟩

theorem keepable_members {before : List (String × Json)} (foreign : Foreign before)
    (stored : Stored) :
    Json.keepable Column.nestingLimit (.object (before ++ stored.members)) = true := by
  have score := (written_score stored.score rfl).2.2 (124 + 2)
  have kept : Json.membersKeepable (Column.nestingLimit - 1) stored.members = true := by
    change Json.membersKeepable (124 + 2) stored.members = true
    simp only [members, Json.membersKeepable, score, Column.keepable_toJson, Bool.and_self]
  rw [Json.keepable, Json.membersKeepable_append, foreign.kept, kept]
  rfl

/-- Whatever stands before it and however it is set out, the text of a record is read back as what
can be read back of it. -/
theorem ofText?_write {before : List (String × Json)} (foreign : Foreign before)
    (stored : Stored) (style : Json.Style) (level : Nat) :
    ofText? (String.ofList ((Json.object (before ++ stored.members)).write style level [])) =
      some stored.readable := by
  rw [ofText?, String.toList_ofList, Json.read?_write style level (writable_members foreign stored),
    Option.bind_some, ofJson?_eq_some_iff (keepable_members foreign stored)]
  exact means_members foreign stored

theorem readable_eq_self {stored : Stored}
    (finite : ∀ score, stored.score = some score → score.isFinite = true) :
    stored.readable = stored := by
  obtain ⟨score, security, performance, smells⟩ := stored
  cases score with
  | none => rfl
  | some score => simp [readable, Option.filter_some_pos (finite score rfl)]

/-- A record whose score is missing or finite is read back from its text as it was, every column in
the form that it had. -/
theorem ofText?_toText {stored : Stored}
    (finite : ∀ score, stored.score = some score → score.isFinite = true) :
    ofText? stored.toText = some stored := by
  have read := ofText?_write foreign_nil stored .indented 0
  rw [readable_eq_self finite] at read
  exact read

/-- A negative zero, text that is no JSON, and a list next to text. -/
theorem ofText?_toText_mixed_columns :
    ofText? (Stored.toText
        { score := some (.ofFloat (-0.0)), security := .text "[\x7b\"\\\x00", smells := .text " ",
          performance := .list [{ category := "\n", severity := .low, description := "\"" }] }) =
      some
        { score := some (.ofFloat (-0.0)), security := .text "[\x7b\"\\\x00", smells := .text " ",
          performance := .list [{ category := "\n", severity := .low, description := "\"" }] } := by
  apply ofText?_toText
  rintro score ⟨⟩
  decide +kernel

end Stored

/-! Audits -/

/-- What a record keeps of an audit: its findings, and its score if that is finite. -/
def Audit.kept (audit : Audit) : Audit :=
  { audit with
    score := if audit.score.isFinite then audit.score else .ofFloat 0.0
    metrics := {} }

namespace Stored

/-- A record with a path before it, as a row of a report has it. -/
def withPath (path : String) (stored : Stored) : Json :=
  .object (("path", .string path) :: stored.members)

private theorem audit?_readable (audit : Audit) :
    (ofAudit audit).readable.audit? = some audit.kept := by
  have score :
      ((some audit.score).filter Score.isFinite).getD (.ofFloat 0.0) = audit.kept.score := by
    rw [Option.filter_some]
    simp only [Audit.kept]
    split <;> rfl
  simp only [audit?, readable, ofAudit, Column.findings?_ofFindings, score, Option.bind_eq_bind,
    Option.bind_some, Option.pure_def]
  rfl

private theorem infix_storedText {reports : List Report} {report : Report}
    (member : report ∈ reports) :
    (withPath report.path (ofAudit report.audit)).write .indented 1 [] <:+:
      (Report.storedText reports).toList := by
  rw [Report.storedText, Json.pretty, String.toList_ofList]
  apply Json.infix_write_array
  · intro row inside
    obtain ⟨source, _, rfl⟩ := List.mem_map.mp inside
    exact writable_members (foreign_path source.path) (ofAudit source.audit)
  · exact List.mem_map.mpr ⟨report, member, rfl⟩

/-- An audit is restored from the text of its record: its findings as they were, its score if that
is finite and otherwise zero, and no measurement. The same holds with a path before the record, in
any layout, and so for each row of a report of stored records. -/
theorem audit?_ofText?_ofAudit (audit : Audit) :
    (ofText? (ofAudit audit).toText).bind audit? = some audit.kept ∧
    (∀ (path : String) (style : Json.Style) (level : Nat),
      (ofText? (String.ofList ((withPath path (ofAudit audit)).write style level []))).bind audit? =
        some audit.kept) ∧
    ∀ (reports : List Report) (report : Report), report ∈ reports → report.audit = audit →
      (withPath report.path (ofAudit audit)).write .indented 1 [] <:+:
        (Report.storedText reports).toList := by
  refine ⟨?_, ?_, ?_⟩
  · have read := ofText?_write foreign_nil (ofAudit audit) .indented 0
    exact (congrArg (Option.bind · audit?) read).trans (audit?_readable audit)
  · intro path style level
    have read := ofText?_write (foreign_path path) (ofAudit audit) style level
    exact (congrArg (Option.bind · audit?) read).trans (audit?_readable audit)
  · rintro reports report member rfl
    exact infix_storedText member

/-- A score that is not a number, a finding with a control character and a quote, and a path with a
backslash. -/
theorem audit?_ofText?_row_without_score :
    (ofText? (String.ofList ((withPath "a\\b" (ofAudit
        { score := ⟨0xFFF8000000000001⟩, performance := [], smells := [], metrics := {},
          security := [{ category := "\x00", severity := .high, description := "\"" }] })).write
            .indented 1 []))).bind audit? =
      some
        { score := .ofFloat 0.0, performance := [], smells := [], metrics := {},
          security := [{ category := "\x00", severity := .high, description := "\"" }] } := by
  have unknown : Score.isFinite ⟨0xFFF8000000000001⟩ = false := by decide +kernel
  rw [(audit?_ofText?_ofAudit _).2.1 "a\\b" .indented 1]
  simp [Audit.kept, unknown]

end Stored

end SnippetAudit
