import SnippetAudit.Proofs.Store.History
import SnippetAudit.Proofs.Stored.RoundTrip

/-!
Rows that are made from audits give audits back, after whatever updates and deletions.

Making a record commutes with the updates of a row: the record that is last written is the record of
the audit whose parts are last written. So a row never holds a column that cannot be read.
-/

set_option autoImplicit false

namespace SnippetAudit

theorem Stored.audit?_ofAudit (audit : Audit) :
    (ofAudit audit).audit? = some { audit with metrics := {} } := by
  simp only [audit?, ofAudit, Column.findings?_ofFindings, Option.bind_eq_bind, Option.bind_some,
    Option.pure_def, Option.getD_some]

namespace Store

/-- Every create among the calls makes its row from an audit. -/
def FromAudits (calls : List Call) : Prop :=
  ∀ now new, Call.create now new ∈ calls → ∃ audit, new.stored = Stored.ofAudit audit

/-- An audit in which every part is the one last written for an id: by the latest update that
carries the part, or else by the audit itself. Measurements are not written. -/
def lastAudit (id : Nat) (calls : List Call) (audit : Audit) : Audit where
  score := (latest (·.score) id calls).getD audit.score
  security := (latest (·.security) id calls).getD audit.security
  performance := (latest (·.performance) id calls).getD audit.performance
  smells := (latest (·.smells) id calls).getD audit.smells
  metrics := {}

private theorem lastWritten_ofAudit (id : Nat) (calls : List Call) (audit : Audit) :
    lastWritten id calls (Stored.ofAudit audit) = Stored.ofAudit (lastAudit id calls audit) := by
  have score : ∀ (later : Option Score) (given : Score),
      (later <|> some given) = some (later.getD given) := by
    intro later given
    cases later <;> rfl
  have column : ∀ (later : Option (List Finding)) (given : List Finding),
      (later.map Column.ofFindings).getD (Column.ofFindings given) =
        Column.ofFindings (later.getD given) := by
    intro later given
    cases later <;> rfl
  simp only [lastWritten, Stored.ofAudit, lastAudit, score, column]

theorem exists_creates_of_mem {calls : List Call} {row : Row} (member : row ∈ (run calls).rows) :
    ∃ now new later, Creates calls row.id now new later := by
  have bounds := (ordered_run calls).bounded_row member
  exact exists_creates bounds.1 bounds.2

/-- A row that is there is as its create made it, with the record last written. -/
theorem eq_of_mem {calls later : List Call} {row : Row} {now : Instant} {new : NewRow}
    (member : row ∈ (run calls).rows) (creates : Creates calls row.id now new later) :
    row = { id := row.id, version := new.version, kind := new.kind, created := now,
            stored := lastWritten row.id later new.stored } := by
  obtain ⟨store, ordered, same, made⟩ := creates.row?_eq
  have found : (run calls).row? row.id = some row :=
    (ordered_run calls).row?_eq_some_iff.mpr ⟨member, rfl⟩
  rw [same] at found
  by_cases deleted : Call.delete row.id ∈ later ∨ Call.deleteVersion new.version ∈ later
  · rw [row?_afterCalls_of_deleted ordered made deleted] at found
    cases found
  · obtain ⟨kept, keptVersion⟩ := not_or.mp deleted
    rw [row?_afterCalls_of_kept ordered made kept keptVersion] at found
    exact (Option.some.inj found).symm

private theorem stored_of_mem {calls later : List Call} {row : Row} {now : Instant} {new : NewRow}
    (member : row ∈ (run calls).rows) (creates : Creates calls row.id now new later) :
    row.stored = lastWritten row.id later new.stored :=
  congrArg Row.stored (eq_of_mem member creates)

/-- In a run whose creates are all made from audits, every row that is there was made by a create of
the run, and it gives an audit back: the one that this create was made from, with the score and each
list of findings as the latest update that carried it wrote it, and without measurements. -/
theorem audit?_of_mem_run {calls : List Call} (fromAudits : FromAudits calls) {row : Row}
    (member : row ∈ (run calls).rows) :
    (∃ now new later audit,
      Creates calls row.id now new later ∧ new.stored = Stored.ofAudit audit) ∧
    ∀ now new later audit, Creates calls row.id now new later →
      new.stored = Stored.ofAudit audit → row.audit? = some (lastAudit row.id later audit) := by
  constructor
  · obtain ⟨now, new, later, creates⟩ := exists_creates_of_mem member
    have inside : Call.create now new ∈ calls := by
      obtain ⟨earlier, _, _, rfl, _⟩ := creates
      exact List.mem_append_right earlier List.mem_cons_self
    obtain ⟨audit, made⟩ := fromAudits now new inside
    exact ⟨now, new, later, audit, creates, made⟩
  · intro now new later audit creates made
    rw [Row.audit?, stored_of_mem member creates, made, lastWritten_ofAudit, Stored.audit?_ofAudit]
    rfl

/-- A finding with a quote and a control character is overwritten in one column and kept in another,
beside a create that is refused and a deletion of other rows. -/
theorem audit?_of_mem_run_two_updates :
    let finding : Finding := { category := "\"", severity := .high, description := "\x00" }
    let audit : Audit :=
      { score := .ofFloat 4.5, security := [finding], performance := [finding], smells := [],
        metrics := {} }
    let calls : List Call :=
      [.create ⟨0, 0⟩ { version := 7, kind := "full", stored := .ofAudit audit },
       .create ⟨1, 0⟩ { version := 7, kind := " ", stored := .ofAudit audit },
       .update 1 { security := some [], smells := some [finding] },
       .update 1 { score := some (.ofFloat 2.0) }, .update 2 { performance := some [] },
       .deleteVersion 8]
    ∃ row ∈ (run calls).rows, FromAudits calls ∧ row.audit? = some
      { score := .ofFloat 2.0, security := [], performance := [finding], smells := [finding],
        metrics := {} } := by
  intro finding audit calls
  have fromAudits : FromAudits calls := by
    intro now new member
    simp only [calls, List.mem_cons, Call.create.injEq, reduceCtorEq, List.not_mem_nil,
      or_false] at member
    rcases member with ⟨_, rfl⟩ | ⟨_, rfl⟩ <;> exact ⟨audit, rfl⟩
  have ids : (run calls).rows.map Row.id = [1] := by decide +kernel
  obtain ⟨row, member, named⟩ := List.mem_map.mp (ids ▸ List.mem_singleton_self 1)
  have creates : Creates calls 1 ⟨0, 0⟩
      { version := 7, kind := "full", stored := .ofAudit audit } calls.tail :=
    ⟨[], _, _, rfl, create_eq_ok_iff.mpr ⟨⟨by decide, by decide +kernel⟩, rfl, rfl⟩, rfl⟩
  have restored := (audit?_of_mem_run fromAudits member).2 ⟨0, 0⟩ _ _ audit
    (named.symm ▸ creates) rfl
  rw [named] at restored
  exact ⟨row, member, fromAudits, restored⟩

end Store

end SnippetAudit
