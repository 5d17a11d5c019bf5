import SnippetAudit.Proofs.Json.Embedding
import SnippetAudit.Proofs.Stored.RoundTrip

/-!
The two forms of a column, an array of findings and the JSON text of one.

Both forms give the same findings. They differ in what else is let through: an array is kept with
all that stands in it, so it is subject to the limits on kept values, which a finding reaches only
by members that are no part of it.
-/

set_option autoImplicit false

namespace SnippetAudit

/-! Values that can be kept -/

namespace Json

private theorem membersKeepable_of_forall {depth : Nat} {members : List (String × Json)}
    (kept : ∀ member ∈ members, keepable depth member.2 = true) :
    membersKeepable depth members = true := by
  induction members with
  | nil => rfl
  | cons first members ih =>
      obtain ⟨key, value⟩ := first
      rw [membersKeepable, kept (key, value) List.mem_cons_self,
        ih fun member inside => kept member (List.mem_cons_of_mem (key, value) inside)]
      rfl

/-- What an object gives for a key is the value of each member with the key. -/
theorem Gives.eq_of_mem {key : String} {members : List (String × Json)} {value other : Json}
    (gives : Gives key members (some value)) (member : (key, other) ∈ members) :
    other = value := by
  have single := valuesOf_eq_singleton_iff.mpr gives
  have found : other ∈ valuesOf key members :=
    List.mem_map.mpr ⟨(key, other), List.mem_filter.mpr ⟨member, by simp⟩, rfl⟩
  rw [single] at found
  exact List.mem_singleton.mp found

end Json

theorem SeverityMeans.keepable {value : Json} {severity : Severity}
    (means : SeverityMeans value severity) (depth : Nat) : value.keepable (depth + 1) = true := by
  cases means with
  | word => rfl
  | key => rfl

/-- Whether a finding has no members but those that are part of it. -/
def Finding.Plain : Json → Prop
  | .object members => ∀ member ∈ members, member.1 ∈ ["type", "severity", "description"]
  | _ => True

theorem FindingMeans.keepable {value : Json} {finding : Finding}
    (means : FindingMeans value finding) (plain : Finding.Plain value) (depth : Nat) :
    value.keepable (depth + 2) = true := by
  cases means with
  | @members members _ _ category severity level description =>
      have kept : Json.membersKeepable (depth + 1) members = true := by
        apply Json.membersKeepable_of_forall
        intro member inside
        obtain ⟨key, value⟩ := member
        have known := plain (key, value) inside
        simp only [List.mem_cons, List.not_mem_nil, or_false] at known
        rcases known with rfl | rfl | rfl
        · rw [category.eq_of_mem inside]
          rfl
        · rw [severity.eq_of_mem inside]
          exact level.keepable depth
        · rw [description.eq_of_mem inside]
          rfl
      simp [Json.keepable, kept]
  | positions level => simp [Json.keepable, Json.itemsKeepable, level.keepable depth]

theorem Finding.keepable_of_plain {items : List Json} {findings : List Finding}
    (means : List.Forall₂ FindingMeans items findings)
    (plain : ∀ item ∈ items, Finding.Plain item) (depth : Nat) :
    Json.keepable (depth + 3) (.array items) = true := by
  have kept : Json.itemsKeepable (depth + 2) items = true := by
    induction means with
    | nil => rfl
    | @cons item _ items _ first _ ih =>
        rw [Json.itemsKeepable, first.keepable (plain item List.mem_cons_self) depth,
          ih fun other member => plain other (List.mem_cons_of_mem item member)]
        rfl
  simp [Json.keepable, kept]

/-! Columns -/

namespace Column

/-- The findings of a text that is read as an array are those of its items. -/
theorem findings?_text {json : String} {items : List Json}
    (read : Json.read? json.toList = some (.array items)) :
    (Column.text json).findings? = items.mapM Finding.ofJson? := by
  obtain ⟨tail, bracket⟩ := Json.skipBlanks_of_read?_array read
  have inside : '[' ∈ json.toList := by
    apply (List.dropWhile_sublist Json.isBlank).subset
    change '[' ∈ Json.skipBlanks json.toList
    rw [bracket]
    exact List.mem_cons_self
  have notBlank : Text.isAllWhite json.toList = false := by
    rw [Text.isAllWhite, List.all_eq_false]
    exact ⟨'[', inside, by decide⟩
  simp only [findings?, notBlank, read]
  rfl

private theorem findings?_of_array {items : List Json} {column : Column}
    (read : ofJson? (.array items) = some column) :
    column.findings? = items.mapM Finding.ofJson? := by
  rw [ofJson?] at read
  split at read
  · obtain ⟨findings, mapped, rfl⟩ := Option.map_eq_some_iff.mp read
    exact mapped.symm
  · cases read

private theorem ofJson?_of_plain {items : List Json} {findings : List Finding}
    (read : items.mapM Finding.ofJson? = some findings)
    (plain : ∀ item ∈ items, Finding.Plain item) :
    ofJson? (.array items) = some (.list findings) := by
  have kept := Finding.keepable_of_plain (Finding.mapM_ofJson?_eq_some_iff.mp read) plain 123
  rw [ofJson?, nestingLimit, if_pos kept, read, Option.map_some]

end Column

/-! Records -/

namespace Json

private theorem valuesOf_append_cons_self (key : String) (value : Json)
    (before after : List (String × Json)) :
    valuesOf key (before ++ (key, value) :: after) =
      valuesOf key before ++ value :: valuesOf key after := by
  simp [valuesOf]

private theorem valuesOf_append_cons_of_ne {key other : String} (different : other ≠ key)
    (value : Json) (before after : List (String × Json)) :
    valuesOf key (before ++ (other, value) :: after) = valuesOf key (before ++ after) := by
  simp [valuesOf, different]

end Json

namespace Stored

/-- A value that is read is not repeated, and any other value is read in its place. -/
theorem atMostOnce_middle {α : Type} {missing result : α} {read? : Json → Option α}
    {before after : List Json} {value : Json}
    (read : atMostOnce missing read? (before ++ value :: after) = some result) :
    read? value = some result ∧
      ∀ other, atMostOnce missing read? (before ++ other :: after) = read? other := by
  cases before with
  | nil =>
      cases after with
      | nil => exact ⟨read, fun _ => rfl⟩
      | cons => cases read
  | cons first before =>
      cases before with
      | nil => cases read
      | cons => cases read

/-- A column of a record. -/
inductive Slot where
  | security
  | performance
  | smells
  deriving DecidableEq

namespace Slot

def key : Slot → String
  | .security => "security_issues"
  | .performance => "performance_suggestions"
  | .smells => "code_smells"

def column : Slot → Stored → Column
  | .security => Stored.security
  | .performance => Stored.performance
  | .smells => Stored.smells

def put (column : Column) (stored : Stored) : Slot → Stored
  | .security => { stored with security := column }
  | .performance => { stored with performance := column }
  | .smells => { stored with smells := column }

private theorem key_ne {slot other : Slot} (different : slot ≠ other) : slot.key ≠ other.key := by
  cases slot <;> cases other <;> first | exact absurd rfl different | decide

private theorem key_ne_score (slot : Slot) : slot.key ≠ "complexity_score" := by
  cases slot <;> decide

private theorem key_known (slot : Slot) : slot.key ∈ knownKeys := by
  cases slot <;> decide

private theorem score_put (slot : Slot) (column : Column) (stored : Stored) :
    (slot.put column stored).score = stored.score := by
  cases slot <;> rfl

private theorem column_put (slot : Slot) (column : Column) (stored : Stored) :
    slot.column (slot.put column stored) = column := by
  cases slot <;> rfl

private theorem column_put_of_ne {slot other : Slot} (different : slot ≠ other) (column : Column)
    (stored : Stored) : other.column (slot.put column stored) = other.column stored := by
  cases slot <;> cases other <;> first | exact absurd rfl different | rfl

end Slot

theorem ofMembers?_eq_some_iff {members : List (String × Json)} {stored : Stored} :
    ofMembers? members = some stored ↔
      atMostOnce none scoreOfJson? (Json.valuesOf "complexity_score" members) =
          some stored.score ∧
        ∀ slot : Slot, atMostOnce .nothing Column.ofJson? (Json.valuesOf slot.key members) =
          some (slot.column stored) := by
  rw [ofMembers?, ofValues?_eq_some_iff]
  constructor
  · intro read
    obtain ⟨score, security, performance, smells⟩ := read
    refine ⟨score, fun slot => ?_⟩
    cases slot with
    | security => exact security
    | performance => exact performance
    | smells => exact smells
  · intro read
    exact ⟨read.1, read.2 .security, read.2 .performance, read.2 .smells⟩

/-- The value of a member that is read at most once is read by itself, and so is any other value in
its place. -/
theorem atMostOnce_valuesOf {α : Type} {missing result : α} {read? : Json → Option α}
    {key : String} {before after : List (String × Json)} {value : Json}
    (read : atMostOnce missing read? (Json.valuesOf key (before ++ (key, value) :: after)) =
      some result) :
    read? value = some result ∧
      ∀ other, atMostOnce missing read? (Json.valuesOf key (before ++ (key, other) :: after)) =
        read? other := by
  rw [Json.valuesOf_append_cons_self] at read
  obtain ⟨own, others⟩ := atMostOnce_middle read
  refine ⟨own, fun other => ?_⟩
  rw [Json.valuesOf_append_cons_self, others]

/-- The value of a column is read by itself: another one in its place changes the column and
nothing else. -/
theorem ofMembers?_slot (slot : Slot) {before after : List (String × Json)} {value : Json}
    {stored : Stored} (read : ofMembers? (before ++ (slot.key, value) :: after) = some stored) :
    Column.ofJson? value = some (slot.column stored) ∧
      ∀ other, ofMembers? (before ++ (slot.key, other) :: after) =
        (Column.ofJson? other).map fun column => slot.put column stored := by
  have elsewhere : ∀ key, slot.key ≠ key → ∀ other,
      Json.valuesOf key (before ++ (slot.key, other) :: after) =
        Json.valuesOf key (before ++ (slot.key, value) :: after) := by
    intro key different other
    rw [Json.valuesOf_append_cons_of_ne different, Json.valuesOf_append_cons_of_ne different]
  obtain ⟨score, columns⟩ := ofMembers?_eq_some_iff.mp read
  obtain ⟨own, others⟩ := atMostOnce_valuesOf (columns slot)
  refine ⟨own, fun other => ?_⟩
  cases decoded : Column.ofJson? other with
  | none =>
      rw [Option.map_none, Option.eq_none_iff_forall_ne_some]
      intro result accepted
      have column := (ofMembers?_eq_some_iff.mp accepted).2 slot
      rw [others, decoded] at column
      cases column
  | some column =>
      refine ofMembers?_eq_some_iff.mpr ⟨?_, fun another => ?_⟩
      · rw [elsewhere _ slot.key_ne_score other, Slot.score_put]
        exact score
      · by_cases same : slot = another
        · subst same
          rw [others, decoded, Slot.column_put]
        · rw [elsewhere _ (Slot.key_ne same) other, Slot.column_put_of_ne same]
          exact columns another

/-- A record in which nothing but one column is given. -/
theorem ofMembers?_slot_alone (slot : Slot) {before after : List (String × Json)} (value : Json)
    (alone : ∀ key ∈ knownKeys, key ∉ (before ++ after).map Prod.fst) :
    ofMembers? (before ++ (slot.key, value) :: after) =
      (Column.ofJson? value).map fun column => slot.put column {} := by
  have missing : ∀ key ∈ knownKeys, Json.valuesOf key (before ++ after) = [] :=
    fun key known => Json.valuesOf_eq_nil_iff.mpr (alone key known)
  have nothing : ofMembers? (before ++ (slot.key, .null) :: after) = some {} := by
    refine ofMembers?_eq_some_iff.mpr ⟨?_, fun another => ?_⟩
    · rw [Json.valuesOf_append_cons_of_ne slot.key_ne_score, missing _ (by decide)]
      rfl
    · have absent := missing another.key another.key_known
      by_cases same : slot = another
      · subst same
        have nowhere : Json.valuesOf slot.key before = [] ∧ Json.valuesOf slot.key after = [] := by
          simpa [Json.valuesOf] using absent
        rw [Json.valuesOf_append_cons_self, nowhere.1, nowhere.2]
        cases slot <;> rfl
      · rw [Json.valuesOf_append_cons_of_ne (Slot.key_ne same), absent]
        cases another <;> rfl
  exact (ofMembers?_slot slot nothing).2 value

/-! Texts -/

private theorem ofText?_fill {key : String} (object : Json.OpenObject key) {text : List Char}
    {value : Json} (read : Json.read? text = some value) :
    ofText? (String.ofList (object.fill text)) = ofMembers? (object.members value) := by
  rw [ofText?, String.toList_ofList, object.read?_fill read]
  rfl

/-- The text is read as a record that has these findings in the column. -/
def Slot.Reads (slot : Slot) (text : List Char) (findings : List Finding) : Prop :=
  ∃ stored, ofText? (String.ofList text) = some stored ∧
    (slot.column stored).findings? = some findings

/-- A column may be given as an array or as the JSON text of that array, in whatever object it
stands. The findings of an array that is accepted are also those of its text. The findings of a
text are those of the array too, which is accepted wherever the text is if no finding has a member
that is no part of it, and so at least where no other column and no score is given. -/
theorem findings_of_array_and_of_its_text (slot : Slot) (object : Json.OpenObject slot.key)
    {array : String} {items : List Json} (arrayRead : Json.read? array.toList = some (.array items))
    {quoted : List Char} (textRead : Json.read? quoted = some (.string array)) :
    (∀ findings, slot.Reads (object.fill array.toList) findings →
      slot.Reads (object.fill quoted) findings) ∧
    ∀ findings, (Column.text array).findings? = some findings →
      (∀ item ∈ items, Finding.Plain item) →
      ((ofText? (String.ofList (object.fill quoted))).isSome = true →
        slot.Reads (object.fill array.toList) findings) ∧
      ((∀ key ∈ knownKeys, key ∉ (object.before ++ object.after).map Json.SpelledMember.key) →
        slot.Reads (object.fill array.toList) findings) := by
  have ofArray := ofText?_fill object arrayRead
  have ofQuoted := ofText?_fill object textRead
  refine ⟨?_, ?_⟩
  · intro findings reads
    obtain ⟨stored, read, decoded⟩ := reads
    rw [ofArray] at read
    obtain ⟨own, others⟩ := ofMembers?_slot slot read
    refine ⟨slot.put (.text array) stored, ofQuoted.trans (others (.string array)), ?_⟩
    rw [Slot.column_put, Column.findings?_text arrayRead, ← Column.findings?_of_array own]
    exact decoded
  · intro findings decoded plain
    rw [Column.findings?_text arrayRead] at decoded
    have list := Column.ofJson?_of_plain decoded plain
    have reads : ∀ stored, ofMembers? (object.members (.array items)) =
        ((Column.ofJson? (.array items)).map fun column => slot.put column stored) →
        slot.Reads (object.fill array.toList) findings := by
      intro stored read
      rw [list, Option.map_some] at read
      refine ⟨slot.put (.list findings) stored, ofArray.trans read, ?_⟩
      rw [Slot.column_put]
      rfl
    constructor
    · intro accepted
      obtain ⟨stored, read⟩ := Option.isSome_iff_exists.mp accepted
      rw [ofQuoted] at read
      exact reads stored ((ofMembers?_slot slot read).2 (.array items))
    · intro alone
      refine reads {} (ofMembers?_slot_alone slot (.array items) ?_)
      rw [← List.map_append, List.map_map]
      exact alone

/-- Next to an unknown member, a finding given by positions and one whose severity is a key. -/
theorem findings_of_array_and_of_its_text_by_positions :
    let severity : Json := .object [("low", .null)]
    let items : List Json :=
      [.array [.string "\\", severity, .string "\""],
       .object [("severity", severity), ("description", .string ""), ("type", .string "\n")]]
    let array := (Json.array items).pretty
    let quoted := ((Json.string array).compact).toList
    let findings : List Finding :=
      [{ category := "\\", severity := .low, description := "\"" },
       { category := "\n", severity := .low, description := "" }]
    ∃ object : Json.OpenObject Slot.performance.key,
      String.ofList (object.fill []) = "\x7b\"x\":[null],\"performance_suggestions\":\x7d\n" ∧
      Slot.performance.Reads (object.fill array.toList) findings ∧
      Slot.performance.Reads (object.fill quoted) findings := by
  intro severity items array quoted findings
  have spelled : ∀ value, Json.Writable value →
      Json.read? (value.write .compact 0 []) = some value :=
    fun value writable => Json.read?_write _ _ writable
  have arrayRead : Json.read? array.toList = some (.array items) := by
    have writable : Json.Writable (.array items) := by
      simp [items, severity, Json.Writable, Json.ItemsWritable, Json.MembersWritable]
    rw [show array.toList = Json.write .indented 0 (.array items) [] from String.toList_ofList]
    exact Json.read?_write _ _ writable
  have textRead : Json.read? quoted = some (.string array) := by
    rw [show quoted = Json.write .compact 0 (.string array) [] from String.toList_ofList]
    exact spelled _ trivial
  let unknown : Json.SpelledMember :=
    ⟨_, _, "x", .array [.null], spelled (.string "x") trivial, spelled _ ⟨trivial, trivial⟩⟩
  let object : Json.OpenObject Slot.performance.key :=
    { lead := [], before := [unknown], keyText := _, after := [], trail := ['\n'],
      leadBlank := Json.blanks_nil, keyRead := spelled (.string _) trivial,
      trailBlank := by simp [Json.Blanks, Json.isBlank] }
  have decoded : (Column.text array).findings? = some findings := by
    rw [Column.findings?_text arrayRead]
    rfl
  have plain : ∀ item ∈ items, Finding.Plain item := by
    refine List.forall_mem_cons.mpr ⟨trivial, List.forall_mem_singleton.mpr ?_⟩
    rw [Finding.Plain]
    decide
  have agree := findings_of_array_and_of_its_text Slot.performance object arrayRead textRead
  have reads := (agree.2 findings decoded plain).2 (by simp [object, unknown, knownKeys])
  exact ⟨object, rfl, reads, agree.1 findings reads⟩

end Stored

end SnippetAudit
