import SnippetAudit.Proofs.Instant.ReadBack
import SnippetAudit.Proofs.Stored.RoundTrip
import SnippetAudit.Stored.Row

/-!
Rows as text.

A row is read from the members of its record that stand among its own, and the record itself is
read from the same text with the members of the row passed over. The two agree wherever a row is
read, since what a row keeps of a text is subject to stricter limits. What is written for a row is
read back.
-/

set_option autoImplicit false

namespace SnippetAudit.Row

open Json (valuesOf membersKeepable)

/-! Reading -/

/-- The members that are not a row's own. -/
def others (members : List (String × Json)) : List (String × Json) :=
  members.filter fun member => !ownKeys.contains member.1

theorem ofJson?_object_eq_some_iff {members : List (String × Json)} {row : Row} :
    ofJson? (.object members) = some row ↔
      exactlyOnce idOfJson? (valuesOf "id" members) = some row.id ∧
      exactlyOnce idOfJson? (valuesOf "snippet_version_id" members) = some row.version ∧
      exactlyOnce textOfJson? (valuesOf "analysis_type" members) = some row.kind ∧
      exactlyOnce instantOfJson? (valuesOf "created_at" members) = some row.created ∧
      membersKeepable (Column.nestingLimit - 1) (others members) = true ∧
      Stored.ofMembers? (others members) = some row.stored := by
  simp only [ofJson?, Option.bind_eq_bind, Option.pure_def, Option.bind_eq_some_iff]
  constructor
  · intro read
    obtain ⟨id, idRead, version, versionRead, kind, kindRead, created, createdRead, read⟩ := read
    split at read
    · next kept =>
      obtain ⟨stored, storedRead, same⟩ := Option.bind_eq_some_iff.mp read
      cases same
      exact ⟨idRead, versionRead, kindRead, createdRead, kept, storedRead⟩
    · cases read
  · intro read
    obtain ⟨idRead, versionRead, kindRead, createdRead, kept, storedRead⟩ := read
    refine ⟨_, idRead, _, versionRead, _, kindRead, _, createdRead, (if_pos kept).trans ?_⟩
    exact Option.bind_eq_some_iff.mpr ⟨_, storedRead, rfl⟩

private theorem valuesOf_others {key : String} (foreign : key ∉ ownKeys)
    (members : List (String × Json)) : valuesOf key (others members) = valuesOf key members := by
  unfold valuesOf others
  rw [List.filter_filter]
  congr 1
  apply List.filter_congr
  intro member _
  by_cases same : member.1 = key
  · simp [same, foreign]
  · simp [same]

private theorem ofMembers?_others (members : List (String × Json)) :
    Stored.ofMembers? (others members) = Stored.ofMembers? members := by
  simp only [Stored.ofMembers?, valuesOf_others (by decide : "complexity_score" ∉ ownKeys),
    valuesOf_others (by decide : "security_issues" ∉ ownKeys),
    valuesOf_others (by decide : "performance_suggestions" ∉ ownKeys),
    valuesOf_others (by decide : "code_smells" ∉ ownKeys)]

/-- Where a row is read, so is its record, and from the same value. -/
theorem stored_ofJson? {value : Json} {row : Row} (read : ofJson? value = some row) :
    Stored.ofJson? value = some row.stored := by
  cases value with
  | object members =>
      obtain ⟨_, _, _, _, _, stored⟩ := ofJson?_object_eq_some_iff.mp read
      exact (ofMembers?_others members).symm.trans stored
  | _ => cases read

private theorem stored_ofText? {text : String} {row : Row} (read : ofText? text = some row) :
    Stored.ofText? text = some row.stored := by
  obtain ⟨value, valueRead, rowRead⟩ := Option.bind_eq_some_iff.mp read
  exact Option.bind_eq_some_iff.mpr ⟨value, valueRead, stored_ofJson? rowRead⟩

/-! Writing -/

/-- What is written for a row. -/
def members (row : Row) : List (String × Json) :=
  [("id", .ofNat row.id), ("snippet_version_id", .ofNat row.version),
    ("analysis_type", .string row.kind)] ++ row.stored.members ++
    [("created_at", .string (String.ofList row.created.toText))]

private theorem toText_eq (row : Row) : row.toText = (Json.object row.members).compact := rfl

/-- A row whose numbers and whose time are within bounds, and whose score, if it has one, is
finite. -/
structure Writable (row : Row) : Prop where
  id : row.id < idLimit
  version : row.version < idLimit
  created : row.created.Valid
  score : ∀ score, row.stored.score = some score → score.isFinite = true

private theorem others_members (row : Row) : others row.members = row.stored.members := by
  simp [others, members, Stored.members, ownKeys]

private theorem distinct_members (row : Row) : (row.members.map Prod.fst).Nodup :=
  (by decide :
    ["id", "snippet_version_id", "analysis_type", "complexity_score", "security_issues",
      "performance_suggestions", "code_smells", "created_at"].Nodup)

/-- A member that is written once is read once. -/
theorem exactlyOnce_members {α : Type} (read? : Json → Option α) {row : Row} {key : String}
    {value : Json} (member : (key, value) ∈ row.members) :
    exactlyOnce read? (valuesOf key row.members) = read? value := by
  have single := Json.valuesOf_eq_singleton_iff.mpr (Json.gives_of_mem row.distinct_members member)
  rw [single, exactlyOnce]

private theorem idOfJson?_ofNat {n : Nat} (bounded : n < idLimit) :
    idOfJson? (.ofNat n) = some n := by
  have value : (Numeral.ofNat n).toNat? = some n := by
    simp [Numeral.toNat?, Numeral.ofNat, Numeral.valueOf_digitsOf]
  rw [Json.ofNat, idOfJson?, value, Option.filter_some_pos (by simpa using bounded)]

private theorem instantOfJson?_toText {instant : Instant} (valid : instant.Valid) :
    instantOfJson? (.string (String.ofList instant.toText)) = some instant := by
  rw [instantOfJson?, String.toList_ofList, Instant.ofText?_toText_of_valid valid]

/-- What is written for a record is read back where it stands among other members. -/
theorem ofMembers?_members {stored : Stored}
    (finite : ∀ score, stored.score = some score → score.isFinite = true) :
    membersKeepable (Column.nestingLimit - 1) stored.members = true ∧
      Stored.ofMembers? stored.members = some stored := by
  have kept := Stored.keepable_members Stored.foreign_nil stored
  have means := Stored.means_members Stored.foreign_nil stored
  rw [Stored.readable_eq_self finite] at means
  exact ⟨kept, (Stored.ofJson?_eq_some_iff kept).mpr means⟩

private theorem ofJson?_members {row : Row} (writable : row.Writable) :
    ofJson? (.object row.members) = some row := by
  obtain ⟨kept, stored⟩ := ofMembers?_members writable.score
  rw [← others_members] at kept stored
  refine ofJson?_object_eq_some_iff.mpr ⟨?_, ?_, ?_, ?_, kept, stored⟩
  · exact (exactlyOnce_members _ (by simp [members])).trans (idOfJson?_ofNat writable.id)
  · exact (exactlyOnce_members _ (by simp [members])).trans (idOfJson?_ofNat writable.version)
  · have kind : textOfJson? (.string row.kind) = some row.kind := rfl
    exact (exactlyOnce_members _ (by simp [members])).trans kind
  · exact (exactlyOnce_members _ (by simp [members])).trans
      (instantOfJson?_toText writable.created)

theorem wellFormed_ofNat (n : Nat) : (Numeral.ofNat n).WellFormed :=
  ⟨Numeral.wholeDigits_digitsOf n, by simp [Numeral.ofNat], by simp [Numeral.ofNat]⟩

theorem writable_members (row : Row) : Json.Writable (.object row.members) := by
  have own : Json.MembersWritable
      [("id", .ofNat row.id), ("snippet_version_id", .ofNat row.version),
        ("analysis_type", .string row.kind)] :=
    ⟨wellFormed_ofNat row.id, wellFormed_ofNat row.version, trivial, trivial⟩
  exact Json.membersWritable_append
    (Json.membersWritable_append own (Stored.writable_members Stored.foreign_nil row.stored))
    ⟨trivial, trivial⟩

private theorem ofText?_toText_of_writable {row : Row} (writable : row.Writable) :
    ofText? row.toText = some row := by
  rw [toText_eq, ofText?, Json.compact, String.toList_ofList,
    Json.read?_write _ _ row.writable_members, Option.bind_some, ofJson?_members writable]

/-- Every text that is read as a row is read as the record of that row. A row with numbers and a
time within bounds, and no score or a finite one, is read back from its text as it was. -/
theorem stored_of_text_and_text_of_row :
    (∀ (text : String) (row : Row), ofText? text = some row →
      Stored.ofText? text = some row.stored) ∧
    ∀ row : Row, row.Writable → ofText? row.toText = some row :=
  ⟨fun _ _ => stored_ofText?, fun _ => ofText?_toText_of_writable⟩

/-- Members in another order with an unknown one among them, a time with an offset; and a row with
the greatest version, text that is no JSON, and a leap second. -/
theorem stored_of_reordered_text_and_leap_second :
    let value : Json := .object
      [("created_at", .string (String.ofList
         ['1', '9', '7', '0', '-', '1', '-', '1', ' ', '0', ':', '0', ':', '9', '-', '0', '1', '0',
          '0'])),
       ("code_smells", .string "["), ("x", .array [.object []]), ("id", .ofNat 7),
       ("complexity_score", .null), ("analysis_type", .string ""),
       ("snippet_version_id", .ofNat 9)]
    let row : Row :=
      { id := 1, version := 0xFFFFFFFFFFFFFFFF, kind := "\n", created := ⟨-1, 1500000000⟩,
        stored :=
          { score := some (.ofFloat (-0.0)), security := .text "[\x7b", smells := .list [] } }
    Stored.ofText? value.pretty = some { smells := .text "[" } ∧
      ofText? row.toText = some row := by
  intro value row
  constructor
  · have writable : Json.Writable value :=
      ⟨trivial, trivial, ⟨trivial, trivial⟩, wellFormed_ofNat 7, trivial, trivial,
        wellFormed_ofNat 9, trivial⟩
    refine stored_of_text_and_text_of_row.1 value.pretty
      { id := 7, version := 9, kind := "", stored := { smells := .text "[" },
        created := ⟨3609, 0⟩ } ?_
    rw [ofText?, Json.pretty, String.toList_ofList, Json.read?_write _ _ writable, Option.bind_some]
    exact ofJson?_object_eq_some_iff.mpr ⟨rfl, rfl, rfl, rfl, rfl, rfl⟩
  · apply stored_of_text_and_text_of_row.2
    refine ⟨by decide, by decide, ⟨by decide, by decide⟩, ?_⟩
    intro score same
    cases same
    decide +kernel

end SnippetAudit.Row
