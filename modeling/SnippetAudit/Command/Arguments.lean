import SnippetAudit.Path

/-!
Command line arguments.

Arguments are taken from left to right and the first problem ends the reading, so a request for help
counts only if everything before it is in order. The options that hold for every task may stand
before the task's name or behind it.
-/

set_option autoImplicit false

namespace SnippetAudit.Command

/-- What the program can be asked to do. -/
inductive Action where
  | analyze
  | detect
  | restore
  | catalog
  deriving DecidableEq, Repr

def Action.label : Action → String
  | .analyze => "analyze"
  | .detect => "detect"
  | .restore => "restore"
  | .catalog => "catalog"

def actions : List Action :=
  [.analyze, .detect, .restore, .catalog]

def Action.ofLabel? (label : String) : Option Action :=
  actions.find? fun action => action.label = label

inductive Switch where
  | verbose
  | config
  | lang
  | format
  | stored
  | strict
  | scores
  | help
  | version
  deriving DecidableEq, Repr

namespace Switch

def label : Switch → String
  | .verbose => "verbose"
  | .config => "config"
  | .lang => "lang"
  | .format => "format"
  | .stored => "stored"
  | .strict => "strict"
  | .scores => "scores"
  | .help => "help"
  | .version => "version"

def letter? : Switch → Option Char
  | .verbose => some 'v'
  | .lang => some 'l'
  | .help => some 'h'
  | .version => some 'V'
  | _ => none

def takesValue : Switch → Bool
  | .config => true
  | .lang => true
  | .format => true
  | _ => false

/-- Whether a value is one that the switch can have. -/
def accepts : Switch → String → Bool
  | .config, value => value ≠ ""
  | .format, value => value = "text" || value = "json"
  | _, _ => true

end Switch

/-- The switches before the action's name, or those behind it. -/
def switchesOf : Option Action → List Switch
  | none => [.verbose, .config, .help, .version]
  | some .analyze => [.lang, .format, .stored, .strict, .verbose, .config, .help]
  | some .detect => [.scores, .verbose, .config, .help]
  | some .restore => [.format, .verbose, .config, .help]
  | some .catalog => [.verbose, .config, .help]

/-- Whether an action takes one more path when it has some. -/
def Action.takesOperand : Action → List String → Bool
  | .analyze, _ => true
  | .detect, operands => operands.isEmpty
  | .restore, operands => operands.isEmpty
  | .catalog, _ => false

/-- Why no task is started. -/
inductive Stop where
  | usage
  | help
  | version
  deriving DecidableEq, Repr

/-- How far the arguments on one side of the action's name have been taken. -/
structure Progress where
  /-- Switches that were set, with their values; a switch without a value has the empty one. -/
  given : List (Switch × String) := []
  operands : List String := []
  /-- A switch whose value is the next argument. -/
  awaiting : Option Switch := none
  /-- A value that has not been looked at yet. -/
  pending : Option (Switch × String) := none
  /-- Whether two dashes were met, behind which everything is an operand. -/
  onlyOperands : Bool := false
  deriving DecidableEq, Repr

namespace Progress

/-- Sets a switch. No switch is set twice. -/
def put (progress : Progress) (switch : Switch) (value : String) : Except Stop Progress :=
  if switch.accepts value && (progress.given.lookup switch).isNone then
    .ok { progress with given := (switch, value) :: progress.given }
  else .error .usage

/-- Looks at the pending value. -/
def settle (progress : Progress) : Except Stop Progress :=
  match progress.pending with
  | none => .ok progress
  | some (switch, value) => { progress with pending := none }.put switch value

/-- Takes a switch, with the value that is attached to it, if any. -/
def takeSwitch (progress : Progress) (switch : Switch) (attached : Option String) :
    Except Stop Progress := do
  let progress ← progress.settle
  match attached with
  | some value => if switch.takesValue then progress.put switch value else .error .usage
  | none =>
      if switch = .help then .error .help
      else if switch = .version then .error .version
      else if switch.takesValue then .ok { progress with awaiting := some switch }
      else progress.put switch ""

/-- Takes `--label` or `--label=value`; `body` follows the dashes. -/
def takeLong (level : Option Action) (progress : Progress) (body : List Char) :
    Except Stop Progress :=
  let label := String.ofList (body.takeWhile (· ≠ '='))
  let attached :=
    match body.dropWhile (· ≠ '=') with
    | [] => none
    | _ :: value => some (String.ofList value)
  match (switchesOf level).find? fun switch => switch.label = label with
  | some switch => progress.takeSwitch switch attached
  | none => .error .usage

/-- Takes one-letter switches behind one dash. All that follows the letter of a switch with a value
is its value; an equals sign may stand between them. -/
def takeLetters (level : Option Action) (progress : Progress) : List Char → Except Stop Progress
  | [] => .ok progress
  | c :: rest =>
      match (switchesOf level).find? fun switch => switch.letter? = some c with
      | none => .error .usage
      | some switch =>
          if switch.takesValue && !rest.isEmpty then
            let value := if rest.head? = some '=' then rest.tail else rest
            progress.takeSwitch switch (some (String.ofList value))
          else do
            let progress ← progress.takeSwitch switch none
            takeLetters level progress rest

/-- Takes a path. -/
def takeOperand (action : Action) (progress : Progress) (operand : String) :
    Except Stop Progress :=
  if operand ≠ "" && action.takesOperand progress.operands then
    .ok { progress with operands := progress.operands ++ [operand] }
  else .error .usage

/-- Takes an argument that is no operand, unless it is one. -/
def takeDashed? (level : Option Action) (progress : Progress) (argument : String) :
    Option (Except Stop Progress) :=
  if progress.onlyOperands then none
  else
    match argument.toList with
    | ['-', '-'] => some (.ok { progress with onlyOperands := true })
    | '-' :: '-' :: body => some (progress.takeLong level body)
    | '-' :: c :: rest => some (progress.takeLetters level (c :: rest))
    | _ => none

/-- Takes the value that a switch awaits. A dash alone is one; nothing else with a leading dash
is. -/
def takeAwaited (progress : Progress) (switch : Switch) (argument : String) :
    Except Stop Progress :=
  match argument.toList with
  | '-' :: _ :: _ => .error .usage
  | _ => .ok { progress with awaiting := none, pending := some (switch, argument) }

/-- Ends the arguments of one side. -/
def finish (progress : Progress) : Except Stop Progress :=
  if progress.awaiting.isSome then .error .usage else progress.settle

end Progress

/-- Takes the arguments behind an action's name. -/
def readBehind (action : Action) (progress : Progress) : List String → Except Stop Progress
  | [] => progress.finish
  | argument :: rest => do
      match progress.awaiting with
      | some switch => readBehind action (← progress.takeAwaited switch argument) rest
      | none =>
          match progress.takeDashed? (some action) argument with
          | some taken => readBehind action (← taken) rest
          | none => readBehind action (← progress.takeOperand action argument) rest

/-- Answers a request for help on what the arguments name. -/
def helpOn : List String → Stop
  | [] => .help
  | [label] => if label = "help" || (Action.ofLabel? label).isSome then .help else .usage
  | _ => .usage

/-- Takes the arguments up to an action's name, and gives what follows that name. -/
def readBefore (progress : Progress) :
    List String → Except Stop (Progress × Action × List String)
  | [] => .error .usage
  | argument :: rest => do
      match progress.awaiting with
      | some switch => readBefore (← progress.takeAwaited switch argument) rest
      | none =>
          match progress.takeDashed? none argument with
          | some taken => readBefore (← taken) rest
          | none =>
              if progress.onlyOperands then .error .usage
              else
                match Action.ofLabel? argument with
                | some action => return (progress, action, rest)
                | none => .error (if argument = "help" then helpOn rest else .usage)

/-- How results are written. -/
inductive Format where
  | text
  | json
  deriving DecidableEq, Repr

/-- What to do, with all that the arguments say about it. -/
inductive Task where
  | analyze (paths : List (List UInt8)) (lang : Option String) (format : Format)
      (stored strict : Bool)
  | detect (path : List UInt8) (scores : Bool)
  | restore (path : List UInt8) (format : Format)
  | catalog
  deriving DecidableEq, Repr

structure Invocation where
  task : Task
  config : Option (List UInt8) := none
  verbose : Bool := false
  deriving DecidableEq, Repr

def Progress.has (progress : Progress) (switch : Switch) : Bool :=
  (progress.given.lookup switch).isSome

def Progress.format (progress : Progress) : Format :=
  if progress.given.lookup .format = some "json" then .json else .text

/-- The task that the arguments behind an action's name describe. -/
def taskOf (action : Action) (progress : Progress) : Except Stop Task :=
  match action, progress.operands with
  | .catalog, _ => .ok .catalog
  | _, [] => .error .usage
  | .analyze, paths =>
      .ok (.analyze (paths.map Path.ofText) (progress.given.lookup .lang) progress.format
        (progress.has .stored) (progress.has .strict))
  | .detect, path :: _ => .ok (.detect (Path.ofText path) (progress.has .scores))
  | .restore, path :: _ => .ok (.restore (Path.ofText path) progress.format)

/-- Reads the arguments. Where a setting file is given on both sides of the action's name, the one
behind it counts. A value right before the action's name is looked at last. -/
def Invocation.ofArguments (arguments : List String) : Except Stop Invocation := do
  let (before, action, rest) ← readBefore {} arguments
  let behind ← readBehind action {} rest
  let task ← taskOf action behind
  let before ← before.finish
  return {
    task
    config := (behind.given.lookup .config <|> before.given.lookup .config).map Path.ofText
    verbose := before.has .verbose || behind.has .verbose }

end SnippetAudit.Command
