import SnippetAudit.Proofs.Entries
import SnippetAudit.Proofs.Toml.PlainLines

/-!
Documents that are tables of integers.

Such a document is read exactly if no header is repeated, no key is repeated within a table, and
every integer has 64 bits at most. What is read has the tables and their entries in order.
-/

set_option autoImplicit false

namespace SnippetAudit.Toml

structure Entry where
  key : BareKey
  value : Int

namespace Entry

def line (entry : Entry) : Line :=
  .assignment entry.key entry.value

def member (entry : Entry) : String × Node :=
  (entry.key.name, .scalar (.integer entry.value))

/-- The value has 64 bits. -/
def Fits (entry : Entry) : Prop :=
  -0x8000000000000000 ≤ entry.value ∧ entry.value < 0x8000000000000000

end Entry

/-- A table of integers, with blank lines behind it. -/
structure IntegerTable where
  key : BareKey
  entries : List Entry
  blanks : Nat := 0

namespace IntegerTable

def lines (table : IntegerTable) : List Line :=
  .header table.key :: (table.entries.map Entry.line ++ List.replicate table.blanks .blank)

def member (table : IntegerTable) : String × Node :=
  (table.key.name, .table .header (table.entries.map Entry.member))

structure Sound (table : IntegerTable) : Prop where
  keys : (table.entries.map fun entry => entry.key.name).Nodup
  fits : ∀ entry ∈ table.entries, entry.Fits

end IntegerTable

/-- The text of tables, each line of which ends in a line feed if another line follows. -/
def tablesText (tables : List IntegerTable) : List Char :=
  linesText (tables.flatMap IntegerTable.lines)

/-! Members -/

private theorem integer?_eq_some_iff {value : Int} {scalar : Scalar} :
    integer? value = some scalar ↔
      (-0x8000000000000000 ≤ value ∧ value < 0x8000000000000000) ∧ scalar = .integer value := by
  have within : (-integerBound ≤ value && value < integerBound) = true ↔
      -0x8000000000000000 ≤ value ∧ value < 0x8000000000000000 := by
    rw [Bool.and_eq_true, decide_eq_true_iff, decide_eq_true_iff, integerBound]
  rw [integer?, ← within, Option.ite_none_right_eq_some, Option.some_inj,
    @eq_comm _ scalar]

theorem put_append {key : String} {before : Members} (fresh : key ∉ before.map Prod.fst)
    (node : Node) (rest : Members) :
    Members.put key node (before ++ rest) = before ++ Members.put key node rest := by
  induction before with
  | nil => rfl
  | cons member before ih =>
      obtain ⟨other, old⟩ := member
      obtain ⟨differs, others⟩ := not_or.mp (mt List.mem_cons.mpr fresh)
      rw [List.cons_append, Members.put, if_neg (Ne.symm differs), ih others]
      rfl

private theorem put_of_notMem {key : String} {members : Members}
    (fresh : key ∉ members.map Prod.fst)
    (node : Node) : members.put key node = members ++ [(key, node)] := by
  have put := put_append fresh node []
  rwa [List.append_nil] at put

private theorem exists_lookup_of_mem {key : String} {members : Members}
    (known : key ∈ members.map Prod.fst) :
    ∃ node, members.lookup key = some node ∧ (key, node) ∈ members := by
  cases found : members.lookup key with
  | none => exact absurd known (lookup_eq_none_iff_notMem.mp found)
  | some node => exact ⟨node, rfl, mem_of_lookup_eq_some found⟩

private theorem lookup_last {key : String} {before : Members} (fresh : key ∉ before.map Prod.fst)
    (node : Node) : (before ++ [(key, node)]).lookup key = some node := by
  rw [List.lookup_append, lookup_eq_none_iff_notMem.mpr fresh]
  simp [List.lookup]

theorem toList_lookup_map {α : Type} (member : α → String × Node) {items : List α}
    (apart : ((items.map member).map Prod.fst).Nodup) (key : String) :
    ((items.map member).lookup key).toList =
      (items.filter fun item => (member item).1 = key).map fun item => (member item).2 := by
  induction items with
  | nil => rfl
  | cons item items ih =>
      obtain ⟨fresh, rest⟩ := List.nodup_cons.mp apart
      rw [List.map_cons, List.lookup_cons, List.filter_cons]
      by_cases same : (member item).1 = key
      · have nothing : (items.filter fun item => (member item).1 = key) = [] := by
          rw [List.filter_eq_nil_iff]
          intro other inside equal
          have again : (member other).1 ∈ (items.map member).map Prod.fst :=
            List.mem_map_of_mem (List.mem_map_of_mem inside)
          exact fresh (same.trans (of_decide_eq_true equal).symm ▸ again)
        simp [same, nothing]
      · rw [beq_eq_false_iff_ne.mpr (Ne.symm same), decide_eq_false same]
        exact ih rest

/-! Assignments -/

theorem map_fst_member (entries : List Entry) :
    (entries.map Entry.member).map Prod.fst = entries.map fun entry => entry.key.name := by
  rw [List.map_map]
  rfl

theorem nodup_map_snoc {α : Type} (name : α → String) (done : List α) (item : α) :
    ((done ++ [item]).map name).Nodup ↔ (done.map name).Nodup ∧ name item ∉ done.map name := by
  rw [List.map_append, List.map_singleton, List.nodup_append_comm, List.singleton_append,
    List.nodup_cons, and_comm]

/-- The draft in which a table behind others is open and has these entries. -/
def openDraft (before : Members) (key : BareKey) (entries : List Entry) : Draft where
  place := [key.name]
  root := before ++ [(key.name, .table .header (entries.map Entry.member))]

/-- An assignment adds to the open table an integer of 64 bits under a new key, and nothing else. -/
theorem apply_line_eq_some_iff {before : Members} {key : BareKey}
    (fresh : key.name ∉ before.map Prod.fst) (done : List Entry) (entry : Entry)
    {after : Draft} :
    Line.apply (openDraft before key done) entry.line = some after ↔
      entry.Fits ∧ entry.key.name ∉ (done.map fun other => other.key.name) ∧
        after = openDraft before key (done ++ [entry]) := by
  have edited : ∀ scalar, (openDraft before key done).root.editAt false
      (fun _ members => members.assign [] entry.key.name (.scalar scalar))
      (openDraft before key done).place false =
        (Members.assign [] entry.key.name (.scalar scalar) (done.map Entry.member)).map
          fun inner => before ++ [(key.name, .table .header inner)] := by
    intro scalar
    simp only [openDraft, Members.editAt, lookup_last fresh, put_append fresh, Members.put, if_true]
    rfl
  simp only [Entry.line, Line.apply, edited, Option.bind_eq_bind, Option.pure_def,
    Option.bind_eq_some_iff, Option.map_eq_some_iff, integer?_eq_some_iff]
  by_cases known : entry.key.name ∈ done.map fun other => other.key.name
  · obtain ⟨node, found, _⟩ := exists_lookup_of_mem (map_fst_member done ▸ known)
    simp [Members.assign, Members.editAt, found, known]
  · have missing := map_fst_member done ▸ known
    simp [Members.assign, Members.editAt, lookup_eq_none_iff_notMem.mpr missing,
      put_of_notMem missing, known, openDraft, Entry.member, Entry.Fits, eq_comm]

theorem foldlM_assignments_eq_some_iff {before : Members} {key : BareKey}
    (fresh : key.name ∉ before.map Prod.fst) (entries done : List Entry)
    (apart : (done.map fun entry => entry.key.name).Nodup) {after : Draft} :
    (entries.map Entry.line).foldlM Line.apply (openDraft before key done) = some after ↔
      ((done ++ entries).map fun entry => entry.key.name).Nodup ∧
        (∀ entry ∈ entries, entry.Fits) ∧ after = openDraft before key (done ++ entries) := by
  induction entries generalizing done with
  | nil => simp [apart, eq_comm]
  | cons entry entries ih =>
      rw [List.map_cons, List.foldlM_cons, Option.bind_eq_bind, Option.bind_eq_some_iff]
      simp only [apply_line_eq_some_iff fresh]
      rw [List.forall_mem_cons, List.append_cons done entry entries]
      constructor
      · rintro ⟨_, ⟨fits, new, rfl⟩, rest⟩
        obtain ⟨keys, others, same⟩ := (ih _ ((nodup_map_snoc _ _ _).mpr ⟨apart, new⟩)).mp rest
        exact ⟨keys, ⟨fits, others⟩, same⟩
      · rintro ⟨keys, ⟨fits, others⟩, same⟩
        have extended : ((done ++ [entry]).map fun entry => entry.key.name).Nodup :=
          (List.map_append ▸ keys).of_append_left
        obtain ⟨_, new⟩ := (nodup_map_snoc _ _ _).mp extended
        exact ⟨_, ⟨fits, new, rfl⟩, (ih _ extended).mpr ⟨keys, others, same⟩⟩

private theorem foldlM_blanks (draft : Draft) (blanks : Nat) :
    (List.replicate blanks Line.blank).foldlM Line.apply draft = some draft := by
  induction blanks with
  | zero => rfl
  | succ blanks ih => exact ih

/-! Tables -/

theorem map_fst_tables (tables : List IntegerTable) :
    (tables.map IntegerTable.member).map Prod.fst = tables.map fun table => table.key.name := by
  rw [List.map_map]
  rfl

/-- A header opens a table that is not there yet. -/
theorem apply_header_eq_some_iff {done : List IntegerTable} {draft : Draft}
    (read : draft.root = done.map IntegerTable.member) (key : BareKey) {after : Draft} :
    Line.apply draft (.header key) = some after ↔
      key.name ∉ (done.map fun table => table.key.name) ∧
        after = openDraft (done.map IntegerTable.member) key [] := by
  rw [Line.apply, read]
  by_cases known : key.name ∈ done.map fun table => table.key.name
  · obtain ⟨node, found, inside⟩ := exists_lookup_of_mem (map_fst_tables done ▸ known)
    obtain ⟨table, _, same⟩ := List.mem_map.mp inside
    obtain ⟨_, rfl⟩ := Prod.mk.inj same
    simp [Members.openTable, Members.editAt, found, known]
  · have missing := map_fst_tables done ▸ known
    simp [Members.openTable, Members.editAt, lookup_eq_none_iff_notMem.mpr missing,
      put_of_notMem missing, known, openDraft, eq_comm]

private theorem foldlM_table_eq_some_iff {done : List IntegerTable} {draft : Draft}
    (read : draft.root = done.map IntegerTable.member) (table : IntegerTable) {after : Draft} :
    table.lines.foldlM Line.apply draft = some after ↔
      table.key.name ∉ (done.map fun other => other.key.name) ∧ table.Sound ∧
        after = openDraft (done.map IntegerTable.member) table.key table.entries := by
  simp only [IntegerTable.lines, List.foldlM_cons, List.foldlM_append, foldlM_blanks,
    Option.bind_eq_bind, Option.bind_eq_some_iff, apply_header_eq_some_iff read]
  constructor
  · rintro ⟨_, ⟨fresh, rfl⟩, _, assigned, same⟩
    obtain ⟨keys, fits, rfl⟩ := (foldlM_assignments_eq_some_iff (map_fst_tables done ▸ fresh)
      table.entries [] List.nodup_nil).mp assigned
    exact ⟨fresh, ⟨keys, fits⟩, (Option.some.inj same).symm⟩
  · rintro ⟨fresh, sound, rfl⟩
    exact ⟨_, ⟨fresh, rfl⟩, _, (foldlM_assignments_eq_some_iff (map_fst_tables done ▸ fresh)
      table.entries [] List.nodup_nil).mpr ⟨sound.keys, sound.fits, rfl⟩, rfl⟩

private theorem foldlM_tables_eq_some_iff (tables done : List IntegerTable) {draft : Draft}
    (read : draft.root = done.map IntegerTable.member)
    (apart : (done.map fun table => table.key.name).Nodup) {root : Members} :
    ((tables.flatMap IntegerTable.lines).foldlM Line.apply draft).map Draft.root = some root ↔
      ((done ++ tables).map fun table => table.key.name).Nodup ∧
        (∀ table ∈ tables, table.Sound) ∧ root = (done ++ tables).map IntegerTable.member := by
  induction tables generalizing done draft with
  | nil => simp [apart, read, eq_comm]
  | cons table tables ih =>
      have opened : (openDraft (done.map IntegerTable.member) table.key table.entries).root =
          (done ++ [table]).map IntegerTable.member := by
        rw [List.map_append]
        rfl
      rw [List.flatMap_cons, List.foldlM_append, Option.bind_eq_bind, Option.map_bind,
        Option.bind_eq_some_iff, List.forall_mem_cons, List.append_cons done table tables]
      simp only [foldlM_table_eq_some_iff read]
      constructor
      · rintro ⟨_, ⟨new, sound, rfl⟩, rest⟩
        obtain ⟨names, others, same⟩ :=
          (ih _ opened ((nodup_map_snoc _ _ _).mpr ⟨apart, new⟩)).mp rest
        exact ⟨names, ⟨sound, others⟩, same⟩
      · rintro ⟨names, ⟨sound, others⟩, same⟩
        have extended : ((done ++ [table]).map fun table => table.key.name).Nodup :=
          (List.map_append ▸ names).of_append_left
        obtain ⟨_, new⟩ := (nodup_map_snoc _ _ _).mp extended
        exact ⟨_, ⟨new, sound, rfl⟩, (ih _ opened extended).mpr ⟨names, others, same⟩⟩

theorem read?_tablesText_eq_some_iff {tables : List IntegerTable} {root : Members} :
    read? (tablesText tables) = some root ↔
      (tables.map fun table => table.key.name).Nodup ∧ (∀ table ∈ tables, table.Sound) ∧
        root = tables.map IntegerTable.member := by
  rw [tablesText, read?_linesText]
  exact foldlM_tables_eq_some_iff tables [] rfl List.nodup_nil

end SnippetAudit.Toml
