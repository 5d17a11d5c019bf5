import SnippetAudit.Command.Arguments
import SnippetAudit.Proofs.Entries

/-!
The arguments of an audit.

Switches may be spelled out in any order, each with its value behind an equals sign, and two dashes
divide them from the paths. Then all that matters is which switches are set, and that there are
paths and none of them is empty.
-/

set_option autoImplicit false

namespace SnippetAudit.Command

/-- A switch behind two dashes, with its value if it takes one. -/
def Switch.spelled (entry : Switch × String) : String :=
  if entry.1.takesValue then "--" ++ entry.1.label ++ "=" ++ entry.2 else "--" ++ entry.1.label

/-- `Takes level entry` says that the switch can be set to the value at this level. -/
structure Takes (level : Option Action) (entry : Switch × String) : Prop where
  known : entry.1 ∈ switchesOf level
  noHelp : entry.1 ≠ .help
  noVersion : entry.1 ≠ .version
  accepted : entry.1.accepts entry.2 = true
  plain : entry.1.takesValue = false → entry.2 = ""

namespace Progress

/-- Nothing is awaited, and switches are still looked for. -/
structure Ready (progress : Progress) : Prop where
  settled : progress.pending = none
  nothingAwaited : progress.awaiting = none
  noDashes : progress.onlyOperands = false

private theorem put_of_new {progress : Progress} {entry : Switch × String}
    (accepted : entry.1.accepts entry.2 = true) (new : progress.given.lookup entry.1 = none) :
    progress.put entry.1 entry.2 = .ok { progress with given := entry :: progress.given } := by
  rw [put, accepted, new]
  rfl

private theorem takeSwitch_of_new {level : Option Action} {progress : Progress}
    {entry : Switch × String} (takes : Takes level entry) (settled : progress.pending = none)
    (new : progress.given.lookup entry.1 = none) :
    progress.takeSwitch entry.1 (if entry.1.takesValue then some entry.2 else none) =
      .ok { progress with given := entry :: progress.given } := by
  have settles : progress.settle = .ok progress := by rw [settle, settled]
  have put := put_of_new takes.accepted new
  rw [takeSwitch, settles]
  cases valued : entry.1.takesValue with
  | true => simpa [bind, Except.bind, valued] using put
  | false =>
      rw [takes.plain valued] at put
      simpa [bind, Except.bind, valued, takes.noHelp, takes.noVersion] using put

private theorem find?_label (level : Option Action) {switch : Switch}
    (known : switch ∈ switchesOf level) :
    ((switchesOf level).find? fun other => other.label = switch.label) = some switch := by
  have injective : ∀ other : Switch, other.label = switch.label → other = switch := by
    intro other
    cases other <;> cases switch <;> simp [Switch.label]
  obtain ⟨found, isFound⟩ :
      ∃ found, ((switchesOf level).find? fun other => other.label = switch.label) = some found :=
    Option.isSome_iff_exists.mp (List.find?_isSome.mpr ⟨switch, known, by simp⟩)
  rw [isFound, injective found (by simpa using List.find?_some isFound)]

private theorem takeLong_spelled (level : Option Action) (progress : Progress) {switch : Switch}
    (known : switch ∈ switchesOf level) (value : String) :
    progress.takeLong level
        (switch.label.toList ++ if switch.takesValue then '=' :: value.toList else []) =
      progress.takeSwitch switch (if switch.takesValue then some value else none) := by
  have plain : ∀ c ∈ switch.label.toList, decide (c ≠ '=') = true :=
    List.all_eq_true.mp (by cases switch <;> rfl)
  rw [takeLong, List.takeWhile_append_of_pos plain, List.dropWhile_append_of_pos plain]
  cases valued : switch.takesValue <;> simp [find?_label level known]

private theorem takeDashed?_spelled {level : Option Action} {progress : Progress}
    {entry : Switch × String} (takes : Takes level entry) (ready : progress.Ready)
    (new : progress.given.lookup entry.1 = none) :
    progress.takeDashed? level (Switch.spelled entry) =
      some (.ok { progress with given := entry :: progress.given }) := by
  have spelled : (Switch.spelled entry).toList = '-' :: '-' ::
      (entry.1.label.toList ++ if entry.1.takesValue then '=' :: entry.2.toList else []) := by
    rw [Switch.spelled]
    cases entry.1.takesValue <;> simp
  obtain ⟨c, rest, nonempty⟩ : ∃ c rest, entry.1.label.toList = c :: rest := by
    cases entry.1 <;> exact ⟨_, _, rfl⟩
  rw [← takeSwitch_of_new takes ready.settled new, ← takeLong_spelled level progress takes.known,
    takeDashed?, if_neg (by simp [ready.noDashes]), spelled, nonempty]
  rfl

end Progress

/-! Whole runs of arguments -/

private theorem readBehind_cons_of_dashed {action : Action} {progress next : Progress}
    {argument : String} (nothingAwaited : progress.awaiting = none)
    (taken : progress.takeDashed? (some action) argument = some (.ok next)) (rest : List String) :
    readBehind action progress (argument :: rest) = readBehind action next rest := by
  rw [readBehind]
  simp only [nothingAwaited, taken]
  rfl

private theorem readBehind_cons_of_undashed {action : Action} {progress : Progress}
    {argument : String} (nothingAwaited : progress.awaiting = none)
    (undashed : progress.takeDashed? (some action) argument = none) (rest : List String) :
    readBehind action progress (argument :: rest) =
      progress.takeOperand action argument >>= fun next => readBehind action next rest := by
  rw [readBehind]
  simp only [nothingAwaited, undashed]

private theorem readBehind_spelled (action : Action) {progress : Progress} (ready : progress.Ready)
    {entries : List (Switch × String)} (takes : ∀ entry ∈ entries, Takes (some action) entry)
    (distinct : (entries.map Prod.fst).Nodup)
    (new : ∀ entry ∈ entries, progress.given.lookup entry.1 = none) (rest : List String) :
    readBehind action progress (entries.map Switch.spelled ++ rest) =
      readBehind action { progress with given := entries.reverse ++ progress.given } rest := by
  induction entries generalizing progress with
  | nil => rfl
  | cons entry entries ih =>
      obtain ⟨first, others⟩ := List.forall_mem_cons.mp takes
      obtain ⟨newFirst, newOthers⟩ := List.forall_mem_cons.mp new
      obtain ⟨apart, distinct⟩ := List.nodup_cons.mp distinct
      have next : Progress.Ready { progress with given := entry :: progress.given } :=
        ⟨ready.settled, ready.nothingAwaited, ready.noDashes⟩
      have stillNew : ∀ later ∈ entries,
          (entry :: progress.given).lookup later.1 = none := by
        intro later member
        have different : later.1 ≠ entry.1 := fun same =>
          apart (List.mem_map.mpr ⟨later, member, same⟩)
        rw [lookup_cons_eq_ite, if_neg different, newOthers later member]
      rw [List.map_cons, List.cons_append,
        readBehind_cons_of_dashed ready.nothingAwaited
          (Progress.takeDashed?_spelled first ready newFirst),
        ih next others distinct stillNew, List.reverse_cons, List.append_assoc]
      rfl

/-- Behind two dashes every argument is a path, and none may be empty. -/
theorem readBehind_paths {progress : Progress} (nothingAwaited : progress.awaiting = none)
    (dashes : progress.onlyOperands = true) (paths : List String) :
    readBehind .analyze progress paths =
      if "" ∈ paths then .error .usage
      else { progress with operands := progress.operands ++ paths }.finish := by
  induction paths generalizing progress with
  | nil => simp [readBehind]
  | cons path paths ih =>
      have undashed : progress.takeDashed? (some .analyze) path = none := by
        rw [Progress.takeDashed?, if_pos dashes]
      rw [readBehind_cons_of_undashed nothingAwaited undashed]
      by_cases empty : path = ""
      · simp [empty, Progress.takeOperand, bind, Except.bind]
      · have taken : progress.takeOperand .analyze path =
            .ok { progress with operands := progress.operands ++ [path] } := by
          simp [Progress.takeOperand, empty, Action.takesOperand]
        have rest := @ih { progress with operands := progress.operands ++ [path] } nothingAwaited
          dashes
        rw [taken]
        simpa [bind, Except.bind, Ne.symm empty] using rest

private theorem readBehind_analyze {entries : List (Switch × String)}
    (takes : ∀ entry ∈ entries, Takes (some .analyze) entry)
    (distinct : (entries.map Prod.fst).Nodup) (paths : List String) :
    readBehind .analyze {} (entries.map Switch.spelled ++ "--" :: paths) =
      if "" ∈ paths then .error .usage
      else .ok { given := entries.reverse, operands := paths, onlyOperands := true } := by
  rw [readBehind_spelled .analyze ⟨rfl, rfl, rfl⟩ takes distinct fun _ _ => rfl,
    readBehind_cons_of_dashed rfl rfl, readBehind_paths rfl rfl, List.append_nil]
  rfl

private theorem ofArguments_analyze {entries : List (Switch × String)}
    (takes : ∀ entry ∈ entries, Takes (some .analyze) entry)
    (distinct : (entries.map Prod.fst).Nodup) (paths : List String) :
    Invocation.ofArguments ("analyze" :: (entries.map Switch.spelled ++ "--" :: paths)) =
      if paths = [] ∨ "" ∈ paths then .error .usage
      else .ok {
        task := .analyze (paths.map Path.ofText) (entries.lookup .lang)
          (if entries.lookup .format = some "json" then .json else .text)
          (entries.lookup .stored).isSome (entries.lookup .strict).isSome
        config := (entries.lookup .config).map Path.ofText
        verbose := (entries.lookup .verbose).isSome } := by
  have before : ∀ rest, readBefore {} ("analyze" :: rest) = .ok ({}, .analyze, rest) :=
    fun _ => rfl
  rw [Invocation.ofArguments, before]
  simp only [bind, Except.bind, readBehind_analyze takes distinct]
  by_cases empty : "" ∈ paths
  · simp [empty]
  · cases paths with
    | nil => rfl
    | cons path paths =>
        simp only [empty, if_false, or_false, reduceCtorEq]
        simp [taskOf, Progress.has, Progress.format, Progress.finish, Progress.settle, pure,
          Except.pure, lookup_reverse_of_nodup distinct]

def Format.word : Format → String
  | .text => "text"
  | .json => "json"

/-- The switches of an audit that are set. -/
def auditSwitches (lang : Option String) (format : Option Format) (stored strict : Bool) :
    List (Switch × String) :=
  (lang.map (Switch.lang, ·)).toList ++ (format.map (Switch.format, ·.word)).toList ++
    (if stored then [(.stored, "")] else []) ++ if strict then [(.strict, "")] else []

/-- The arguments of an audit. -/
def auditArguments (lang : Option String) (format : Option Format) (stored strict : Bool)
    (paths : List String) : List String :=
  "analyze" :: ((auditSwitches lang format stored strict).map Switch.spelled ++ "--" :: paths)

private theorem takes_auditSwitches (lang : Option String) (format : Option Format)
    (stored strict : Bool) :
    ∀ entry ∈ auditSwitches lang format stored strict, Takes (some .analyze) entry := by
  have isLang (value : String) : Takes (some .analyze) (.lang, value) :=
    ⟨by simp [switchesOf], nofun, nofun, rfl, nofun⟩
  have isFormat (format : Format) : Takes (some .analyze) (.format, format.word) :=
    ⟨by simp [switchesOf], nofun, nofun, by cases format <;> decide, nofun⟩
  have isStored : Takes (some .analyze) (.stored, "") :=
    ⟨by simp [switchesOf], nofun, nofun, rfl, fun _ => rfl⟩
  have isStrict : Takes (some .analyze) (.strict, "") :=
    ⟨by simp [switchesOf], nofun, nofun, rfl, fun _ => rfl⟩
  intro entry member
  simp only [auditSwitches, List.mem_append, Option.mem_toList, Option.map_eq_some_iff,
    List.mem_ite_nil_right, List.mem_singleton] at member
  rcases member with ((⟨value, _, rfl⟩ | ⟨value, _, rfl⟩) | ⟨_, rfl⟩) | ⟨_, rfl⟩
  · exact isLang value
  · exact isFormat value
  · exact isStored
  · exact isStrict

/-- The arguments of an audit say what is to be audited and how, unless there is no path or an
empty one. -/
theorem ofArguments_auditArguments (lang : Option String) (format : Option Format)
    (stored strict : Bool) (paths : List String) :
    Invocation.ofArguments (auditArguments lang format stored strict paths) =
      if paths = [] ∨ "" ∈ paths then .error .usage
      else .ok {
        task := .analyze (paths.map Path.ofText) lang (format.getD .text) stored strict } := by
  have distinct : ((auditSwitches lang format stored strict).map Prod.fst).Nodup := by
    cases lang <;> cases format <;> cases stored <;> cases strict <;> simp [auditSwitches]
  rw [auditArguments, ofArguments_analyze (takes_auditSwitches lang format stored strict) distinct]
  have lookups : (auditSwitches lang format stored strict).lookup .lang = lang ∧
      (auditSwitches lang format stored strict).lookup .format = format.map Format.word ∧
      ((auditSwitches lang format stored strict).lookup .stored).isSome = stored ∧
      ((auditSwitches lang format stored strict).lookup .strict).isSome = strict ∧
      (auditSwitches lang format stored strict).lookup .config = none ∧
      (auditSwitches lang format stored strict).lookup .verbose = none := by
    cases lang <;> cases format <;> cases stored <;> cases strict <;>
      exact ⟨rfl, rfl, rfl, rfl, rfl, rfl⟩
  obtain ⟨langIs, formatIs, storedIs, strictIs, configIs, verboseIs⟩ := lookups
  have written : (if format.map Format.word = some "json" then Format.json else .text) =
      format.getD .text := by
    rcases format with _ | _ | _ <;> rfl
  rw [langIs, formatIs, storedIs, strictIs, configIs, verboseIs, written]
  rfl

end SnippetAudit.Command
