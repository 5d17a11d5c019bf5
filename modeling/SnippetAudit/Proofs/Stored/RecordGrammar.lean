import Mathlib.Data.List.Forall2
import SnippetAudit.Proofs.Json.Writing
import SnippetAudit.Stored.Record

/-!
Which JSON values are stored records, and of which record.

The relations below say what a value means without reference to how it is decoded. The main
statement is that a text which spells a value, in whatever way, is decoded as exactly the record
that the value means, and is refused if it means none.
-/

set_option autoImplicit false

namespace SnippetAudit

/-! Members -/

namespace Json

/-- What an object gives for a key: nothing if no member has the key, and the value if exactly one
member has it. A repeated key gives neither. -/
inductive Gives (key : String) (members : List (String × Json)) : Option Json → Prop where
  | absent : key ∉ members.map Prod.fst → Gives key members none
  | once {before after : List (String × Json)} {value : Json} :
      members = before ++ (key, value) :: after → key ∉ before.map Prod.fst →
      key ∉ after.map Prod.fst → Gives key members (some value)

theorem valuesOf_eq_nil_iff {key : String} {members : List (String × Json)} :
    valuesOf key members = [] ↔ key ∉ members.map Prod.fst := by
  simp only [valuesOf, List.map_eq_nil_iff, List.filter_eq_nil_iff, decide_eq_true_eq,
    List.mem_map, not_exists, not_and]

theorem valuesOf_eq_singleton_iff {key : String} {members : List (String × Json)} {value : Json} :
    valuesOf key members = [value] ↔ Gives key members (some value) := by
  constructor
  · intro single
    obtain ⟨member, filtered, rfl⟩ := List.map_eq_singleton_iff.mp single
    obtain ⟨before, after, split, none_before, same, none_after⟩ :=
      List.filter_eq_cons_iff.mp filtered
    obtain rfl : member.1 = key := by simpa using same
    refine .once split ?_ ?_
    · rw [← valuesOf_eq_nil_iff, valuesOf, List.map_eq_nil_iff, List.filter_eq_nil_iff]
      exact none_before
    · rw [← valuesOf_eq_nil_iff, valuesOf, none_after, List.map_nil]
  · intro gives
    cases gives with
    | once split none_before none_after =>
        rw [← valuesOf_eq_nil_iff, valuesOf, List.map_eq_nil_iff] at none_before none_after
        simp [valuesOf, split, none_before, none_after]

/-- The values of a key are what the object gives for it, if it gives anything. -/
theorem valuesOf_eq_toList_iff {key : String} {members : List (String × Json)}
    {given : Option Json} : valuesOf key members = given.toList ↔ Gives key members given := by
  cases given with
  | none =>
      rw [Option.toList_none, valuesOf_eq_nil_iff]
      exact ⟨.absent, fun gives => by cases gives; assumption⟩
  | some value => exact valuesOf_eq_singleton_iff

theorem Gives.mem {key : String} {members : List (String × Json)} {value : Json}
    (gives : Gives key members (some value)) : (key, value) ∈ members := by
  cases gives with
  | once split => simp [split]

/-! Values that can be kept -/

private theorem keepable_of_mem_items {depth : Nat} {items : List Json}
    (kept : itemsKeepable depth items = true) {item : Json} (member : item ∈ items) :
    keepable depth item = true := by
  induction items with
  | nil => simp at member
  | cons first items ih =>
      simp only [itemsKeepable, Bool.and_eq_true] at kept
      rcases List.mem_cons.mp member with rfl | member
      · exact kept.1
      · exact ih kept.2 member

private theorem keepable_of_mem_members {depth : Nat} {members : List (String × Json)}
    (kept : membersKeepable depth members = true) {key : String} {value : Json}
    (member : (key, value) ∈ members) : keepable depth value = true := by
  induction members with
  | nil => simp at member
  | cons first members ih =>
      obtain ⟨firstKey, firstValue⟩ := first
      simp only [membersKeepable, Bool.and_eq_true] at kept
      rcases List.mem_cons.mp member with same | member
      · cases same
        exact kept.1
      · exact ih kept.2 member

end Json

/-! Findings -/

/-- A severity is its word, or an object with the word as its only key and null as the value. -/
inductive SeverityMeans : Json → Severity → Prop where
  | word (severity : Severity) : SeverityMeans (.string severity.word) severity
  | key (severity : Severity) : SeverityMeans (.object [(severity.word, .null)]) severity

/-- A finding is an object that gives its three parts, or an array of just these. -/
inductive FindingMeans : Json → Finding → Prop where
  | members {members : List (String × Json)} {severity : Json} {finding : Finding} :
      Json.Gives "type" members (some (.string finding.category)) →
      Json.Gives "severity" members (some severity) →
      SeverityMeans severity finding.severity →
      Json.Gives "description" members (some (.string finding.description)) →
      FindingMeans (.object members) finding
  | positions {severity : Json} {finding : Finding} :
      SeverityMeans severity finding.severity →
      FindingMeans
        (.array [.string finding.category, severity, .string finding.description]) finding

theorem Severity.ofWord?_eq_some_iff {word : String} {severity : Severity} :
    Severity.ofWord? word = some severity ↔ word = severity.word := by
  cases severity <;> simp only [Severity.ofWord?, Severity.word] <;> split_ifs <;> simp_all

theorem Severity.ofJson?_eq_some_iff {value : Json} {severity : Severity} :
    Severity.ofJson? value = some severity ↔ SeverityMeans value severity := by
  constructor
  · intro read
    unfold Severity.ofJson? at read
    split at read
    · rw [Severity.ofWord?_eq_some_iff] at read
      exact read ▸ .word severity
    · rw [Severity.ofWord?_eq_some_iff] at read
      exact read ▸ .key severity
    · cases read
  · intro means
    cases means with
    | word => exact Severity.ofWord?_eq_some_iff.mpr rfl
    | key => exact Severity.ofWord?_eq_some_iff.mpr rfl

theorem Finding.ofValues?_eq_some_iff {category severity description : Json} {finding : Finding} :
    Finding.ofValues? category severity description = some finding ↔
      category = .string finding.category ∧ SeverityMeans severity finding.severity ∧
        description = .string finding.description := by
  constructor
  · intro read
    unfold Finding.ofValues? at read
    split at read
    · obtain ⟨level, levelRead, rfl⟩ := Option.map_eq_some_iff.mp read
      exact ⟨rfl, Severity.ofJson?_eq_some_iff.mp levelRead, rfl⟩
    · cases read
  · rintro ⟨rfl, means, rfl⟩
    simp [Finding.ofValues?, Severity.ofJson?_eq_some_iff.mpr means]

theorem Finding.ofJson?_eq_some_iff {value : Json} {finding : Finding} :
    Finding.ofJson? value = some finding ↔ FindingMeans value finding := by
  constructor
  · intro read
    unfold Finding.ofJson? at read
    split at read
    · split at read
      · next category severity description =>
        obtain ⟨rfl, means, rfl⟩ := Finding.ofValues?_eq_some_iff.mp read
        exact .members (Json.valuesOf_eq_singleton_iff.mp category)
          (Json.valuesOf_eq_singleton_iff.mp severity) means
          (Json.valuesOf_eq_singleton_iff.mp description)
      · cases read
    · obtain ⟨rfl, means, rfl⟩ := Finding.ofValues?_eq_some_iff.mp read
      exact .positions means
    · cases read
  · intro means
    cases means with
    | members category severity level description =>
        simp only [Finding.ofJson?, Json.valuesOf_eq_singleton_iff.mpr category,
          Json.valuesOf_eq_singleton_iff.mpr severity,
          Json.valuesOf_eq_singleton_iff.mpr description]
        exact Finding.ofValues?_eq_some_iff.mpr ⟨rfl, level, rfl⟩
    | positions level => exact Finding.ofValues?_eq_some_iff.mpr ⟨rfl, level, rfl⟩

theorem Finding.mapM_ofJson?_eq_some_iff {items : List Json} {findings : List Finding} :
    items.mapM Finding.ofJson? = some findings ↔ List.Forall₂ FindingMeans items findings := by
  induction items generalizing findings with
  | nil => cases findings <;> simp
  | cons item items ih =>
      simp only [List.mapM_cons, Option.bind_eq_bind, Option.pure_def, Option.bind_eq_some_iff,
        Option.some.injEq, Finding.ofJson?_eq_some_iff, ih, List.forall₂_cons_left_iff]
      constructor
      · rintro ⟨finding, means, rest, all, rfl⟩
        exact ⟨finding, rest, means, all, rfl⟩
      · rintro ⟨finding, rest, means, all, rfl⟩
        exact ⟨finding, means, rest, all, rfl⟩

/-! Columns and scores -/

/-- What is given for a column: nothing and null are no findings, a string is kept as text, and an
array holds the findings themselves. -/
inductive ColumnMeans : Option Json → Column → Prop where
  | absent : ColumnMeans none (.list [])
  | null : ColumnMeans (some .null) (.list [])
  | text {json : String} : ColumnMeans (some (.string json)) (.text json)
  | list {items : List Json} {findings : List Finding} :
      List.Forall₂ FindingMeans items findings → ColumnMeans (some (.array items)) (.list findings)

/-- What is given for a score: nothing and null are no score, a number is its double. -/
inductive ScoreMeans : Option Json → Option Score → Prop where
  | absent : ScoreMeans none none
  | null : ScoreMeans (some .null) none
  | number {numeral : Numeral} {x : Float} :
      numeral.toFloat? = some x → ScoreMeans (some (.number numeral)) (some (.ofFloat x))

theorem Column.ofJson?_eq_some_iff {value : Json} {column : Column}
    (kept : value.keepable (Column.nestingLimit - 1) = true) :
    Column.ofJson? value = some column ↔ ColumnMeans (some value) column := by
  constructor
  · intro read
    unfold Column.ofJson? at read
    split at read
    · cases read
      exact .null
    · cases read
      exact .text
    · rw [if_pos kept] at read
      obtain ⟨findings, mapped, rfl⟩ := Option.map_eq_some_iff.mp read
      exact .list (Finding.mapM_ofJson?_eq_some_iff.mp mapped)
    · cases read
  · intro means
    cases means with
    | null => rfl
    | text => rfl
    | list all =>
        simp only [Column.ofJson?, kept, ↓reduceIte,
          Finding.mapM_ofJson?_eq_some_iff.mpr all, Option.map_some]

namespace Stored

private theorem scoreOfJson?_eq_some_iff {value : Json} {score : Option Score} :
    scoreOfJson? value = some score ↔ ScoreMeans (some value) score := by
  constructor
  · intro read
    unfold scoreOfJson? at read
    split at read
    · cases read
      exact .null
    · obtain ⟨x, inRange, rfl⟩ := Option.map_eq_some_iff.mp read
      exact .number inRange
    · cases read
  · intro means
    cases means with
    | null => rfl
    | number inRange => simp [scoreOfJson?, inRange]

private theorem atMostOnce_toList {α : Type} (missing : α) (read? : Json → Option α)
    (given : Option Json) :
    atMostOnce missing read? given.toList = given.elim (some missing) read? := by
  cases given <;> rfl

/-- Whatever is read at most once is not repeated. -/
theorem eq_toList_of_atMostOnce {α : Type} {missing result : α} {read? : Json → Option α}
    {values : List Json} (read : atMostOnce missing read? values = some result) :
    ∃ given : Option Json, values = given.toList := by
  unfold atMostOnce at read
  split at read
  · exact ⟨none, rfl⟩
  · next value => exact ⟨some value, rfl⟩
  · cases read

private theorem score_atMostOnce_iff {given : Option Json} {score : Option Score} :
    atMostOnce none scoreOfJson? given.toList = some score ↔ ScoreMeans given score := by
  rw [atMostOnce_toList]
  cases given with
  | none => exact ⟨fun read => by cases read; exact .absent, fun means => by cases means; rfl⟩
  | some value => exact scoreOfJson?_eq_some_iff

theorem column_atMostOnce_iff {given : Option Json} {column : Column}
    (kept : ∀ value ∈ given, value.keepable (Column.nestingLimit - 1) = true) :
    atMostOnce .nothing Column.ofJson? given.toList = some column ↔ ColumnMeans given column := by
  rw [atMostOnce_toList]
  cases given with
  | none => exact ⟨fun read => by cases read; exact .absent, fun means => by cases means; rfl⟩
  | some value => exact Column.ofJson?_eq_some_iff (kept value rfl)

/-! Records -/

/-- The four values that a record depends on: those of its known keys, each given at most once, or
the items of an array that stops after any number of them. -/
inductive KnownValues : Json → (score security performance smells : Option Json) → Prop where
  | members {members : List (String × Json)} {score security performance smells : Option Json} :
      Json.Gives "complexity_score" members score →
      Json.Gives "security_issues" members security →
      Json.Gives "performance_suggestions" members performance →
      Json.Gives "code_smells" members smells →
      KnownValues (.object members) score security performance smells
  | positions {items : List Json} :
      items.length ≤ 4 → KnownValues (.array items) items[0]? items[1]? items[2]? items[3]?

/-- A record is what its four known values mean; nothing else in the value counts. -/
def Means (value : Json) (stored : Stored) : Prop :=
  ∃ score security performance smells,
    KnownValues value score security performance smells ∧ ScoreMeans score stored.score ∧
      ColumnMeans security stored.security ∧ ColumnMeans performance stored.performance ∧
      ColumnMeans smells stored.smells

theorem KnownValues.keepable {value : Json} {score security performance smells : Option Json}
    (known : KnownValues value score security performance smells)
    (kept : value.keepable Column.nestingLimit = true) :
    ∀ given ∈ [security, performance, smells], ∀ value ∈ given,
      value.keepable (Column.nestingLimit - 1) = true := by
  cases known with
  | members _ security performance smells =>
      simp only [Json.keepable, Bool.and_eq_true] at kept
      intro given member value present
      simp only [List.mem_cons, List.not_mem_nil, or_false] at member
      rcases member with rfl | rfl | rfl <;> cases present
      · exact Json.keepable_of_mem_members kept.2 security.mem
      · exact Json.keepable_of_mem_members kept.2 performance.mem
      · exact Json.keepable_of_mem_members kept.2 smells.mem
  | positions short =>
      simp only [Json.keepable, Bool.and_eq_true] at kept
      intro given member value present
      simp only [List.mem_cons, List.not_mem_nil, or_false] at member
      rcases member with rfl | rfl | rfl <;>
        exact Json.keepable_of_mem_items kept.2 (List.mem_of_getElem? present)

theorem ofValues?_eq_some_iff {score security performance smells : List Json} {stored : Stored} :
    ofValues? score security performance smells = some stored ↔
      atMostOnce none scoreOfJson? score = some stored.score ∧
        atMostOnce .nothing Column.ofJson? security = some stored.security ∧
        atMostOnce .nothing Column.ofJson? performance = some stored.performance ∧
        atMostOnce .nothing Column.ofJson? smells = some stored.smells := by
  simp only [ofValues?, Option.bind_eq_bind, Option.pure_def, Option.bind_eq_some_iff,
    Option.some.injEq]
  constructor
  · rintro ⟨score, scoreRead, security, securityRead, performance, performanceRead, smells,
      smellsRead, rfl⟩
    exact ⟨scoreRead, securityRead, performanceRead, smellsRead⟩
  · rintro ⟨scoreRead, securityRead, performanceRead, smellsRead⟩
    exact ⟨_, scoreRead, _, securityRead, _, performanceRead, _, smellsRead, rfl⟩

/-- Known values that can be kept are decoded as what they mean. -/
theorem KnownValues.ofValues?_eq_some_iff {value : Json}
    {score security performance smells : Option Json} {stored : Stored}
    (known : KnownValues value score security performance smells)
    (kept : value.keepable Column.nestingLimit = true) :
    ofValues? score.toList security.toList performance.toList smells.toList = some stored ↔
      ScoreMeans score stored.score ∧ ColumnMeans security stored.security ∧
        ColumnMeans performance stored.performance ∧ ColumnMeans smells stored.smells := by
  have given := known.keepable kept
  rw [Stored.ofValues?_eq_some_iff, score_atMostOnce_iff,
    column_atMostOnce_iff (given security (by simp)),
    column_atMostOnce_iff (given performance (by simp)),
    column_atMostOnce_iff (given smells (by simp))]

private theorem knownValues_of_ofMembers? {members : List (String × Json)} {stored : Stored}
    (read : ofMembers? members = some stored) :
    ∃ score security performance smells,
      KnownValues (.object members) score security performance smells := by
  obtain ⟨scoreRead, securityRead, performanceRead, smellsRead⟩ :=
    Stored.ofValues?_eq_some_iff.mp read
  obtain ⟨score, scoreGiven⟩ := eq_toList_of_atMostOnce scoreRead
  obtain ⟨security, securityGiven⟩ := eq_toList_of_atMostOnce securityRead
  obtain ⟨performance, performanceGiven⟩ := eq_toList_of_atMostOnce performanceRead
  obtain ⟨smells, smellsGiven⟩ := eq_toList_of_atMostOnce smellsRead
  exact ⟨score, security, performance, smells,
    .members (Json.valuesOf_eq_toList_iff.mp scoreGiven)
      (Json.valuesOf_eq_toList_iff.mp securityGiven)
      (Json.valuesOf_eq_toList_iff.mp performanceGiven)
      (Json.valuesOf_eq_toList_iff.mp smellsGiven)⟩

/-- Decoding goes through the known values. -/
theorem KnownValues.ofJson?_eq {value : Json} {score security performance smells : Option Json}
    (known : KnownValues value score security performance smells) :
    ofJson? value =
      ofValues? score.toList security.toList performance.toList smells.toList := by
  cases known with
  | members score security performance smells =>
      rw [ofJson?, ofMembers?, Json.valuesOf_eq_toList_iff.mpr score,
        Json.valuesOf_eq_toList_iff.mpr security, Json.valuesOf_eq_toList_iff.mpr performance,
        Json.valuesOf_eq_toList_iff.mpr smells]
  | positions short => rw [ofJson?, if_pos short]

private theorem knownValues_of_ofJson? {value : Json} {stored : Stored}
    (read : ofJson? value = some stored) :
    ∃ score security performance smells,
      KnownValues value score security performance smells := by
  unfold ofJson? at read
  split at read
  · exact knownValues_of_ofMembers? read
  · split at read
    · next short => exact ⟨_, _, _, _, .positions short⟩
    · cases read
  · cases read

theorem ofJson?_eq_some_iff {value : Json} {stored : Stored}
    (kept : value.keepable Column.nestingLimit = true) :
    ofJson? value = some stored ↔ Means value stored := by
  constructor
  · intro read
    obtain ⟨score, security, performance, smells, known⟩ := knownValues_of_ofJson? read
    rw [known.ofJson?_eq, known.ofValues?_eq_some_iff kept] at read
    exact ⟨score, security, performance, smells, known, read⟩
  · rintro ⟨score, security, performance, smells, known, means⟩
    rw [known.ofJson?_eq, known.ofValues?_eq_some_iff kept]
    exact means

end Stored

end SnippetAudit
