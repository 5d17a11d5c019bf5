import SnippetAudit.Rules
import SnippetAudit.Toml.Reader

/-!
Settings of the command line, as a TOML document gives them.

The table `rules` holds the thresholds of the smell checks and the table `limits` the size limit of
an input. What a document does not set keeps its default, and keys that mean nothing here are
passed over.
-/

set_option autoImplicit false

namespace SnippetAudit

structure Settings where
  rules : Rules := {}
  /-- A longer input is skipped. -/
  maxInputBytes : Nat := 1048576
  deriving DecidableEq, Repr

namespace Settings

open Toml

/-- The number that a setting is given, if it is given one. A number is an integer that is not
negative. -/
def number? : Option Node → Option (Option Nat)
  | none => some none
  | some (.scalar (.integer value)) => if 0 ≤ value then some (some value.toNat) else none
  | some _ => none

/-- The numbers of a group of settings. Each setting has one or more keys, of which at most one may
be given. The group is a table, or an array with the numbers in order, of which any may be missing
at the end and any may be too many. A date or a time in its place sets nothing. -/
def group? (settings : List (List String)) : Option Node → Option (List (Option Nat))
  | none => some (settings.map fun _ => none)
  | some (.table _ members) =>
      settings.mapM fun keys =>
        match keys.filterMap (fun key => members.lookup key) with
        | [] => some none
        | [value] => number? (some value)
        | _ => none
  | some (.array items) => settings.zipIdx.mapM fun (_, index) => number? items[index]?
  | some (.scalar .moment) => some (settings.map fun _ => none)
  | some _ => none

def ruleKeys : List (List String) :=
  [["long_method_lines"], ["max_classes"], ["max_parameters", "max_function_args"],
    ["max_nesting_depth"]]

def limitKeys : List (List String) :=
  [["max_input_bytes"]]

def rulesOf : List (Option Nat) → Rules
  | [longMethodLines, maxClasses, maxParameters, maxNestingDepth] =>
      let defaults : Rules := {}
      { longMethodLines := longMethodLines.getD defaults.longMethodLines
        maxClasses := maxClasses.getD defaults.maxClasses
        maxParameters := maxParameters.getD defaults.maxParameters
        maxNestingDepth := maxNestingDepth.getD defaults.maxNestingDepth }
  | _ => {}

def limitOf : List (Option Nat) → Nat
  | [limit] => limit.getD ({} : Settings).maxInputBytes
  | _ => ({} : Settings).maxInputBytes

/-- The settings that a document gives. -/
def ofDocument? (document : Members) : Option Settings := do
  let rules ← group? ruleKeys (document.lookup "rules")
  let limits ← group? limitKeys (document.lookup "limits")
  return { rules := rulesOf rules, maxInputBytes := limitOf limits }

/-- The settings of a text, unless it is no document or one with a wrong setting. -/
def ofText? (text : List Char) : Option Settings := do
  ofDocument? (← read? text)

end Settings

end SnippetAudit
