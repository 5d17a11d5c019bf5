import SnippetAudit.Proofs.Command.Sources

/-!
What a run reads.

A run depends on what its paths name, on its settings file and on its inputs, and on nothing else
that could be seen. So it is enough to have read these, whatever is said of the rest.
-/

set_option autoImplicit false

namespace SnippetAudit

namespace Input

private theorem ofArguments_congr {left right : List UInt8 → Option FileTree}
    {arguments : List (List UInt8)}
    (same : ∀ argument ∈ arguments, left argument = right argument) :
    ofArguments left arguments = ofArguments right arguments := by
  refine List.flatMap_congr fun argument member => ?_
  rw [ofArgument, ofArgument, same argument member]

private theorem contentAfter_congr {left right : List UInt8 → Except ReadFailure (List UInt8)}
    {leftConsole rightConsole : Except ReadFailure (List UInt8)} {input : Input}
    (files : ∀ path, input = .file path → left path = right path)
    (consoles : input = .console → leftConsole = rightConsole) (earlier : List Input) :
    input.contentAfter left leftConsole earlier =
      input.contentAfter right rightConsole earlier := by
  cases input with
  | console =>
      rw [consoles rfl]
      rfl
  | file path => exact files path rfl

end Input

namespace Command

/-- The surroundings are alike in all that the run of an invocation reads. -/
structure Agree (invocation : Invocation) (left right : Surroundings) : Prop where
  coloured : left.coloured = right.coloured
  trees : ∀ path ∈ invocation.task.paths, left.look path = right.look path
  settings : left.read invocation.settingsPath = right.read invocation.settingsPath
  files : ∀ path, .file path ∈ invocation.task.inputs left.look → left.read path = right.read path
  consoles : .console ∈ invocation.task.inputs left.look → left.console = right.console

section

variable {left right : Surroundings}

private theorem walkLines_congr {paths : List (List UInt8)}
    (trees : ∀ path ∈ paths, left.look path = right.look path) :
    walkLines left.look paths = walkLines right.look paths := by
  refine List.filterMap_congr fun path member => ?_
  rw [Input.faults, Input.faults, trees path member]

private theorem sources_congr {inputs : List Input}
    (files : ∀ path, .file path ∈ inputs → left.read path = right.read path)
    (consoles : .console ∈ inputs → left.console = right.console) (limit : Nat)
    (lang : Option String) :
    sources limit lang left.read left.console inputs =
      sources limit lang right.read right.console inputs := by
  rw [sources_eq, sources_eq]
  refine List.map_congr_left fun entry member => ?_
  have inside : entry.1 ∈ inputs := List.fst_mem_of_mem_zipIdx member
  rw [Input.contentAfter_congr (fun path same => files path (same ▸ inside))
    fun same => consoles (same ▸ inside)]

private theorem readText_congr {input : Input} (coloured : left.coloured = right.coloured)
    (files : ∀ path, input = .file path → left.read path = right.read path)
    (consoles : input = .console → left.console = right.console) :
    readText left input = readText right input := by
  have content : input.content left.read left.console = input.content right.read right.console := by
    cases input with
    | console => exact consoles rfl
    | file path => exact files path rfl
  rw [readText, readText, content, coloured]

private theorem findSettings_congr {invocation : Invocation}
    (settings : left.read invocation.settingsPath = right.read invocation.settingsPath) :
    findSettings left.read invocation.config = findSettings right.read invocation.config := by
  rw [Invocation.settingsPath] at settings
  cases config : invocation.config with
  | none =>
      rw [config, Option.getD_none] at settings
      simp only [findSettings, settings]
  | some path =>
      rw [config, Option.getD_some] at settings
      simp only [findSettings, settings]

private theorem perform_congr {invocation : Invocation} (agree : Agree invocation left right)
    (settings : Settings) :
    perform left settings invocation.task = perform right settings invocation.task := by
  obtain ⟨coloured, trees, _, files, consoles⟩ := agree
  cases task : invocation.task with
  | catalog => rw [perform, perform, coloured]
  | analyze paths lang format stored strict =>
      simp only [task, Task.paths, Task.inputs] at trees files consoles
      rw [perform, perform, analyze, analyze, sources_congr files consoles, walkLines_congr trees,
        Input.ofArguments_congr trees, coloured]
  | detect path scores =>
      simp only [task, Task.paths, Task.inputs] at trees files consoles
      rw [perform, perform, detect, detect, walkLines_congr trees, ← Input.ofArguments_congr trees]
      cases named : Input.ofArguments left.look [path] with
      | nil => rfl
      | cons input inputs =>
          rw [named, List.take_one, List.head?_cons] at files consoles
          have read : readText left input = readText right input :=
            readText_congr coloured (fun path same => files path (by simp [same]))
              fun same => consoles (by simp [same])
          simp only [read]
  | restore path format =>
      simp only [task, Task.paths, Task.inputs, List.mem_singleton] at trees files consoles
      rw [perform, perform, restore, restore,
        readText_congr coloured (fun path same => files path same.symm)
          fun same => consoles same.symm, coloured]

/-- Runs of an invocation are equal in surroundings that differ only where it reads nothing. -/
theorem run_eq_of_agree {invocation : Invocation} (agree : Agree invocation left right) :
    run left invocation = run right invocation := by
  rw [run, run, findSettings_congr agree.settings, agree.coloured]
  cases findSettings right.read invocation.config with
  | error message => rfl
  | ok found => simp only [perform_congr agree]

end

end Command

end SnippetAudit
