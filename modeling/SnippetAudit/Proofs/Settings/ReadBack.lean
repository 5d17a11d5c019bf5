import SnippetAudit.Settings
import SnippetAudit.Proofs.Toml.IntegerTables

/-!
Settings read back from a document of integer tables.

The settings have exactly the values that the document gives them, wherever it gives them, and
their defaults elsewhere. A setting that is given twice or is given a negative number makes the
whole document fail, and so does a number of more than 64 bits under any key.
-/

set_option autoImplicit false

namespace SnippetAudit

open Toml

inductive Setting where
  | longMethodLines
  | maxClasses
  | maxParameters
  | maxNestingDepth
  | maxInputBytes

namespace Setting

/-- The name of the table that has the setting. -/
def table : Setting → String
  | .maxInputBytes => "limits"
  | _ => "rules"

/-- The keys of the setting, of which a document uses one at most. -/
def keys : Setting → List String
  | .longMethodLines => ["long_method_lines"]
  | .maxClasses => ["max_classes"]
  | .maxParameters => ["max_parameters", "max_function_args"]
  | .maxNestingDepth => ["max_nesting_depth"]
  | .maxInputBytes => ["max_input_bytes"]

def value (settings : Settings) : Setting → Nat
  | .longMethodLines => settings.rules.longMethodLines
  | .maxClasses => settings.rules.maxClasses
  | .maxParameters => settings.rules.maxParameters
  | .maxNestingDepth => settings.rules.maxNestingDepth
  | .maxInputBytes => settings.maxInputBytes

end Setting

namespace Settings

def ofValues (values : Setting → Nat) : Settings where
  rules :=
    { longMethodLines := values .longMethodLines
      maxClasses := values .maxClasses
      maxParameters := values .maxParameters
      maxNestingDepth := values .maxNestingDepth }
  maxInputBytes := values .maxInputBytes

private theorem value_ofValues (values : Setting → Nat) (setting : Setting) :
    setting.value (ofValues values) = values setting := by
  cases setting <;> rfl

/-- All values that tables of this name give to these keys. -/
def valuesAt (tables : List IntegerTable) (name : String) (keys : List String) : List Int :=
  keys.flatMap fun key =>
    (tables.filter fun table => table.key.name = name).flatMap fun table =>
      (table.entries.filter fun entry => entry.key.name = key).map Entry.value

/-- All values that a document gives to a setting. -/
def given (tables : List IntegerTable) (setting : Setting) : List Int :=
  valuesAt tables setting.table setting.keys

/-! The numbers of a table -/

private theorem filterMap_lookup {table : IntegerTable} (sound : table.Sound) (keys : List String) :
    keys.filterMap (fun key => (table.entries.map Entry.member).lookup key) =
      (keys.flatMap fun key =>
        (table.entries.filter fun entry => entry.key.name = key).map Entry.value).map
          fun value => .scalar (.integer value) := by
  rw [List.filterMap_eq_flatMap_toList, List.map_flatMap]
  congr 1
  funext key
  rw [toList_lookup_map Entry.member (map_fst_member table.entries ▸ sound.keys), List.map_map]
  rfl

/-- The number of a setting that is given these values. -/
def settle? : List Int → Option (Option Nat)
  | [] => some none
  | [value] => if 0 ≤ value then some (some value.toNat) else none
  | _ => none

private theorem group?_eq_mapM {tables : List IntegerTable}
    (names : (tables.map fun table => table.key.name).Nodup)
    (sound : ∀ table ∈ tables, table.Sound) (settings : List (List String)) (name : String) :
    group? settings ((tables.map IntegerTable.member).lookup name) =
      settings.mapM fun keys => settle? (valuesAt tables name keys) := by
  have found := toList_lookup_map IntegerTable.member (map_fst_tables tables ▸ names) name
  cases looked : (tables.map IntegerTable.member).lookup name with
  | none =>
      rw [looked] at found
      have nowhere : (tables.filter fun table => table.key.name = name) = [] :=
        List.map_eq_nil_iff.mp found.symm
      have nothing : ∀ keys, valuesAt tables name keys = [] := by
        intro keys
        rw [valuesAt, nowhere]
        exact List.flatMap_eq_nil_iff.mpr fun _ _ => rfl
      simp only [nothing, settle?]
      exact (List.mapM_pure (m := Option)).symm
  | some node =>
      rw [looked] at found
      obtain ⟨table, only, rfl⟩ := List.map_eq_singleton_iff.mp found.symm
      have inside : table ∈ tables := List.mem_of_mem_filter (only ▸ List.mem_singleton.mpr rfl)
      have values : ∀ keys, valuesAt tables name keys = keys.flatMap fun key =>
          (table.entries.filter fun entry => entry.key.name = key).map Entry.value := by
        intro keys
        change (tables.filter fun table => table.key.name = name) = [table] at only
        simp only [valuesAt, only, List.flatMap_singleton]
      simp only [IntegerTable.member, group?, filterMap_lookup (sound table inside), ← values]
      congr 1
      funext keys
      rcases valuesAt tables name keys with _ | ⟨first, _ | ⟨second, rest⟩⟩ <;> rfl

/-- What a setting becomes that is given these values. -/
def Becomes (values : List Int) (byDefault value : Nat) : Prop :=
  values = [] ∧ value = byDefault ∨ values = [(value : Int)]

private theorem becomes_iff {values : List Int} {byDefault value : Nat} :
    Becomes values byDefault value ↔
      ∃ number, settle? values = some number ∧ number.getD byDefault = value := by
  unfold Becomes
  rcases values with _ | ⟨first, _ | ⟨second, rest⟩⟩
  · simp [settle?, eq_comm]
  · by_cases negative : first < 0
    · have := Int.not_le.mpr negative
      simp [settle?, this]
      omega
    · have := Int.not_lt.mp negative
      simp [settle?, this]
      omega
  · simp [settle?]

theorem ofDocument?_eq_some_iff {tables : List IntegerTable}
    (names : (tables.map fun table => table.key.name).Nodup)
    (sound : ∀ table ∈ tables, table.Sound) {settings : Settings} :
    ofDocument? (tables.map IntegerTable.member) = some settings ↔
      ∀ setting : Setting,
        Becomes (given tables setting) (setting.value {}) (setting.value settings) := by
  simp only [becomes_iff, ofDocument?, group?_eq_mapM names sound, ruleKeys, limitKeys,
    List.mapM_cons, List.mapM_nil, Option.bind_eq_bind, Option.pure_def, Option.bind_eq_some_iff,
    Option.some_inj]
  constructor
  · rintro ⟨_, ⟨lines, linesRead, _, ⟨classes, classesRead, _, ⟨parameters, parametersRead, _,
      ⟨depth, depthRead, _, rfl, rfl⟩, rfl⟩, rfl⟩, rfl⟩, _, ⟨bytes, bytesRead, _, rfl, rfl⟩, rfl⟩
    intro setting
    cases setting with
    | longMethodLines => exact ⟨lines, linesRead, rfl⟩
    | maxClasses => exact ⟨classes, classesRead, rfl⟩
    | maxParameters => exact ⟨parameters, parametersRead, rfl⟩
    | maxNestingDepth => exact ⟨depth, depthRead, rfl⟩
    | maxInputBytes => exact ⟨bytes, bytesRead, rfl⟩
  · intro become
    obtain ⟨lines, linesRead, isLines⟩ := become .longMethodLines
    obtain ⟨classes, classesRead, isClasses⟩ := become .maxClasses
    obtain ⟨parameters, parametersRead, isParameters⟩ := become .maxParameters
    obtain ⟨depth, depthRead, isDepth⟩ := become .maxNestingDepth
    obtain ⟨bytes, bytesRead, isBytes⟩ := become .maxInputBytes
    refine ⟨_, ⟨lines, linesRead, _, ⟨classes, classesRead, _, ⟨parameters, parametersRead, _,
      ⟨depth, depthRead, _, rfl, rfl⟩, rfl⟩, rfl⟩, rfl⟩, _, ⟨bytes, bytesRead, _, rfl, rfl⟩, ?_⟩
    obtain ⟨⟨_, _, _, _⟩, _⟩ := settings
    subst isLines isClasses isParameters isDepth isBytes
    rfl

theorem ofText?_tablesText_eq_some_iff {tables : List IntegerTable} {settings : Settings} :
    ofText? (tablesText tables) = some settings ↔
      (tables.map fun table => table.key.name).Nodup ∧ (∀ table ∈ tables, table.Sound) ∧
        ∀ setting : Setting,
          Becomes (given tables setting) (setting.value {}) (setting.value settings) := by
  rw [ofText?, Option.bind_eq_bind, Option.bind_eq_some_iff]
  constructor
  · rintro ⟨_, read, settled⟩
    obtain ⟨names, sound, rfl⟩ := read?_tablesText_eq_some_iff.mp read
    exact ⟨names, sound, (ofDocument?_eq_some_iff names sound).mp settled⟩
  · rintro ⟨names, sound, become⟩
    exact ⟨_, read?_tablesText_eq_some_iff.mpr ⟨names, sound, rfl⟩,
      (ofDocument?_eq_some_iff names sound).mpr become⟩

/-! Documents -/

/-- No table, no key of a table and no setting is given twice, and what is given to a setting is a
number below 2 ^ 63. -/
structure Plain (tables : List IntegerTable) : Prop where
  names : (tables.map fun table => table.key.name).Nodup
  keys : ∀ table ∈ tables, (table.entries.map fun entry => entry.key.name).Nodup
  once : ∀ setting, (given tables setting).length ≤ 1
  numbers : ∀ setting, ∀ value ∈ given tables setting, 0 ≤ value ∧ value < 0x8000000000000000

private theorem becomes_of_plain {tables : List IntegerTable} (plain : Plain tables)
    (setting : Setting) (byDefault : Nat) :
    Becomes (given tables setting) byDefault
      ((given tables setting).head?.elim byDefault Int.toNat) := by
  have once := plain.once setting
  have numbers := plain.numbers setting
  generalize given tables setting = values at once numbers
  rcases values with _ | ⟨value, _ | ⟨second, rest⟩⟩
  · exact .inl ⟨rfl, rfl⟩
  · have number := (numbers value (List.mem_singleton.mpr rfl)).1
    exact .inr (congrArg (fun value => [value]) (Int.toNat_of_nonneg number).symm)
  · simp at once

/-- A plain document gives its settings the values in it and no others. -/
theorem exists_ofText?_of_plain {tables : List IntegerTable} (plain : Plain tables)
    (fits : ∀ table ∈ tables, ∀ entry ∈ table.entries, entry.Fits) :
    ∃ settings, ofText? (tablesText tables) = some settings ∧
      ∀ setting : Setting,
        (∀ value ∈ given tables setting, (setting.value settings : Int) = value) ∧
        (given tables setting = [] → setting.value settings = setting.value {}) := by
  have become := fun setting : Setting => becomes_of_plain plain setting (setting.value {})
  refine ⟨ofValues fun setting =>
    (given tables setting).head?.elim (setting.value {}) Int.toNat, ?_, fun setting => ?_⟩
  · refine ofText?_tablesText_eq_some_iff.mpr ⟨plain.names, ?_, fun setting => ?_⟩
    · exact fun table inside => ⟨plain.keys table inside, fits table inside⟩
    · rw [value_ofValues]
      exact become setting
  · rw [value_ofValues]
    refine ⟨fun value isGiven => ?_, fun nothing => ?_⟩
    · rcases become setting with ⟨nothing, _⟩ | only
      · rw [nothing] at isGiven
        cases isGiven
      · rw [only, List.mem_singleton] at isGiven
        exact isGiven.symm
    · rw [nothing]
      rfl

private theorem ofText?_eq_none_of_given {tables : List IntegerTable} {setting : Setting}
    (wrong : 1 < (given tables setting).length ∨ ∃ value ∈ given tables setting, value < 0) :
    ofText? (tablesText tables) = none := by
  refine Option.eq_none_iff_forall_ne_some.mpr fun settings read => ?_
  obtain ⟨_, _, become⟩ := ofText?_tablesText_eq_some_iff.mp read
  rcases become setting with ⟨nothing, _⟩ | only
  · rw [nothing] at wrong
    rcases wrong with twice | ⟨value, isGiven, _⟩
    · cases twice
    · cases isGiven
  · rw [only] at wrong
    rcases wrong with twice | ⟨value, isGiven, negative⟩
    · exact absurd twice (Nat.lt_irrefl 1)
    · rw [List.mem_singleton] at isGiven
      omega

private theorem ofText?_eq_none_of_wide {tables : List IntegerTable}
    (wide : ∃ table ∈ tables, ∃ entry ∈ table.entries, ¬ entry.Fits) :
    ofText? (tablesText tables) = none := by
  obtain ⟨table, inside, entry, isEntry, tooWide⟩ := wide
  refine Option.eq_none_iff_forall_ne_some.mpr fun settings read => ?_
  obtain ⟨_, sound, _⟩ := ofText?_tablesText_eq_some_iff.mp read
  exact tooWide ((sound table inside).fits entry isEntry)

/-- A plain document, all numbers of which have 64 bits, gives its settings the values in it and
no others. A document is refused in which a setting is given twice or is given a negative number,
or in which any number has more bits. -/
theorem ofText?_tablesText (tables : List IntegerTable) :
    (Plain tables → (∀ table ∈ tables, ∀ entry ∈ table.entries, entry.Fits) →
      ∃ settings, ofText? (tablesText tables) = some settings ∧
        ∀ setting : Setting,
          (∀ value ∈ given tables setting, (setting.value settings : Int) = value) ∧
          (given tables setting = [] → setting.value settings = setting.value {})) ∧
    (∀ setting, (1 < (given tables setting).length ∨ ∃ value ∈ given tables setting, value < 0) →
      ofText? (tablesText tables) = none) ∧
    ((∃ table ∈ tables, ∃ entry ∈ table.entries, ¬ entry.Fits) →
      ofText? (tablesText tables) = none) :=
  ⟨exists_ofText?_of_plain, fun _ => ofText?_eq_none_of_given, ofText?_eq_none_of_wide⟩

def rulesKey : BareKey := ⟨"rules".toList, by decide, List.all_eq_true.mp rfl⟩

def limitsKey : BareKey := ⟨"limits".toList, by decide, List.all_eq_true.mp rfl⟩

def noteKey : BareKey := ⟨"note".toList, by decide, List.all_eq_true.mp rfl⟩

def bytesKey : BareKey := ⟨"max_input_bytes".toList, by decide, List.all_eq_true.mp rfl⟩

def parametersKey : BareKey := ⟨"max_parameters".toList, by decide, List.all_eq_true.mp rfl⟩

def argumentsKey : BareKey := ⟨"max_function_args".toList, by decide, List.all_eq_true.mp rfl⟩

/-- Here `max_input_bytes` means nothing among the rules. -/
def sampleTables : List IntegerTable :=
  [⟨limitsKey, [⟨noteKey, -3⟩, ⟨bytesKey, 0x7fffffffffffffff⟩], 1⟩,
    ⟨rulesKey, [⟨bytesKey, -1⟩, ⟨argumentsKey, 0⟩], 0⟩]

def twiceTable : IntegerTable :=
  ⟨rulesKey, [⟨parametersKey, 3⟩, ⟨argumentsKey, 3⟩], 0⟩

def wideTable : IntegerTable :=
  ⟨rulesKey, [⟨noteKey, 0x8000000000000000⟩], 0⟩

private theorem plain_sampleTables : Plain sampleTables where
  names := by decide +kernel
  keys := by decide +kernel
  once := by
    intro setting
    cases setting <;> decide +kernel
  numbers := by
    intro setting
    cases setting <;> decide +kernel

theorem ofText?_sampleTables :
    (∃ settings, ofText? (tablesText sampleTables) = some settings ∧
      settings.maxInputBytes = 0x7fffffffffffffff ∧ settings.rules.maxParameters = 0 ∧
        settings.rules.maxNestingDepth = 5) ∧
    ofText? (tablesText [twiceTable]) = none ∧ ofText? (tablesText [wideTable]) = none := by
  refine ⟨?_, ?_, ?_⟩
  · obtain ⟨settings, read, values⟩ := (ofText?_tablesText sampleTables).1 plain_sampleTables
      (by unfold Entry.Fits; decide +kernel)
    refine ⟨settings, read, ?_, ?_, (values .maxNestingDepth).2 (by decide +kernel)⟩
    · exact Int.ofNat.inj ((values .maxInputBytes).1 0x7fffffffffffffff (by decide +kernel))
    · exact Int.ofNat.inj ((values .maxParameters).1 0 (by decide +kernel))
  · exact (ofText?_tablesText [twiceTable]).2.1 .maxParameters (.inl (by decide +kernel))
  · exact (ofText?_tablesText [wideTable]).2.2 (by unfold Entry.Fits; decide +kernel)

/-- Even under a key that means nothing, a number is too large from 2 ^ 63 on. -/
theorem ofText?_wideTable :
    Plain [wideTable] ∧
      tablesText [wideTable] = "[rules]\nnote = 9223372036854775808".toList ∧
      ofText? (tablesText [wideTable]) = none := by
  have nothing : ∀ setting, given [wideTable] setting = [] := by
    intro setting
    cases setting <;> decide +kernel
  refine ⟨⟨by decide +kernel, by decide +kernel, ?_, ?_⟩, by decide +kernel, ?_⟩
  · exact fun setting => nothing setting ▸ Nat.zero_le 1
  · exact fun setting => nothing setting ▸ nofun
  · exact ofText?_eq_none_of_wide (by unfold Entry.Fits; decide +kernel)

end Settings

end SnippetAudit
