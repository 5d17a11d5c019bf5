import SnippetAudit.FileTree
import SnippetAudit.Language

/-!
The inputs that path arguments name.

A dash is standard input. A directory stands for the files below it whose extension is known; names
that start with a dot and the usual build and dependency directories are left out with all that is
below them. Any other path is taken as it is.
-/

set_option autoImplicit false

namespace SnippetAudit

/-- One thing to read: standard input or a file. -/
inductive Input where
  | console
  | file (path : List UInt8)
  deriving DecidableEq, Repr

namespace Input

def isConsole : Input → Bool
  | .console => true
  | .file _ => false

def path? : Input → Option (List UInt8)
  | .console => none
  | .file path => some path

def label : Input → String
  | .console => "<stdin>"
  | .file path => Path.shown path

/-- The language that the extension stands for. -/
def language? : Input → Option String
  | .console => none
  | .file path => Language.ofPath? path

/-- What reading an input gives, where `read` tells what reading a file gives and reading standard
input would give `console`. -/
def content (read : List UInt8 → Except ReadFailure (List UInt8))
    (console : Except ReadFailure (List UInt8)) : Input → Except ReadFailure (List UInt8)
  | .console => console
  | .file path => read path

/-- What reading standard input gives after an input has been read: the first reading takes all. -/
def remaining (console : Except ReadFailure (List UInt8)) :
    Input → Except ReadFailure (List UInt8)
  | .console => console.map fun _ => []
  | .file _ => console

/-- The input that a path names where it is not asked what stands there. -/
def ofPath (path : List UInt8) : Input :=
  if path = Path.ofText "-" then .console else .file path

/-- Directories that hold no sources of their own. -/
def prunedNames : List String :=
  ["target", "node_modules", "vendor", "dist", "build", "__pycache__"]

def isPruned (label : List UInt8) : Bool :=
  (Path.shown label).toList.head? = some '.' || prunedNames.contains (Path.shown label)

mutual

/-- The paths of the files of a tree at a path, the entries of each directory in the order of their
names. -/
def below (path : List UInt8) : FileTree → List (List UInt8)
  | .file => if (Language.ofPath? path).isSome then [path] else []
  | .other => []
  | .directory entries _ =>
      ((belowEntries path entries).mergeSort fun left right => left.1 ≤ right.1).flatMap Prod.snd

/-- The paths of the files below each entry of the directory at a path. -/
def belowEntries (path : List UInt8) :
    List (List UInt8 × FileTree) → List (List UInt8 × List (List UInt8))
  | [] => []
  | (label, tree) :: entries =>
      (label, if isPruned label then [] else below (Path.join path label) tree) ::
        belowEntries path entries

end

mutual

/-- How many entries could not be listed in a tree. -/
def unlisted : FileTree → Nat
  | .file => 0
  | .other => 0
  | .directory entries count => count + unlistedIn entries

/-- How many entries could not be listed below the entries of a directory. -/
def unlistedIn : List (List UInt8 × FileTree) → Nat
  | [] => 0
  | (label, tree) :: entries => (if isPruned label then 0 else unlisted tree) + unlistedIn entries

end

/-- The inputs that one argument names; `look` tells what a path names, links being followed. -/
def ofArgument (look : List UInt8 → Option FileTree) (argument : List UInt8) : List Input :=
  if argument = Path.ofText "-" then [.console]
  else
    match look argument with
    | some (.directory entries count) => (below argument (.directory entries count)).map .file
    | _ => [.file argument]

/-- The inputs that arguments name, in the arguments' order. -/
def ofArguments (look : List UInt8 → Option FileTree) (arguments : List (List UInt8)) :
    List Input :=
  arguments.flatMap (ofArgument look)

/-- How many entries could not be listed in what an argument names. -/
def faults (look : List UInt8 → Option FileTree) (argument : List UInt8) : Nat :=
  if argument = Path.ofText "-" then 0 else ((look argument).map unlisted).getD 0

/-- Reads inputs in order, each with what reading it gives. -/
def readAll (read : List UInt8 → Except ReadFailure (List UInt8))
    (console : Except ReadFailure (List UInt8)) :
    List Input → List (Input × Except ReadFailure (List UInt8))
  | [] => []
  | input :: inputs =>
      (input, input.content read console) :: readAll read (input.remaining console) inputs

end Input

end SnippetAudit
