import SnippetAudit.Path

/-!
File trees, and files in memory.
-/

set_option autoImplicit false

namespace SnippetAudit

/-- Why bytes could not be had. -/
inductive ReadFailure where
  | missing
  | notDirectory
  | isDirectory
  | denied
  | notText
  deriving DecidableEq, Repr

def ReadFailure.message : ReadFailure → String
  | .missing => "No such file or directory (os error 2)"
  | .notDirectory => "Not a directory (os error 20)"
  | .isDirectory => "Is a directory (os error 21)"
  | .denied => "Permission denied (os error 13)"
  | .notText => "stream did not contain valid UTF-8"

/-- What a path can name: a regular file, a directory, or anything else, as a pipe or a link is. A
directory has entries, no two of which have one name. Those that could not be listed are only
counted; a directory that cannot be opened counts as one. -/
inductive FileTree where
  | file
  | other
  | directory (entries : List (List UInt8 × FileTree)) (unlisted : Nat)

/-- Files in memory: what stands where, and what reading gives at the end of a way that leads to no
directory. -/
structure Files where
  tree : FileTree := .directory [] 0
  contents : List (List (List UInt8) × Except ReadFailure (List UInt8)) := []

namespace Files

/-- Follows steps from a tree, `above` being the directories that it lies in, innermost first, each
with the name of the entry that was entered. Every step starts from a directory; an empty one and a
single dot stay in it. -/
def follow (above : List (List UInt8 × FileTree)) (here : FileTree) :
    List (List UInt8) → Except ReadFailure (List (List UInt8) × FileTree)
  | [] => .ok ((above.map Prod.fst).reverse, here)
  | step :: rest =>
      match here with
      | .directory entries _ =>
          if step = [] || step = [Path.dot] then follow above here rest
          else if step = [Path.dot, Path.dot] then
            match above with
            | (_, outer) :: above => follow above outer rest
            | [] => .error .missing
          else
            match entries.lookup step with
            | some inner => follow ((step, here) :: above) inner rest
            | none => .error .missing
      | _ => .error .notDirectory

/-- The way to what a path names, and what that is, seen from the directory at the root. Nothing
outside of it is known. -/
def resolve (files : Files) (path : List UInt8) :
    Except ReadFailure (List (List UInt8) × FileTree) :=
  if path = [] || path.head? = some Path.slash then .error .missing
  else follow [] files.tree (Path.pieces path)

def look (files : Files) (path : List UInt8) : Option FileTree :=
  (files.resolve path).toOption.map Prod.snd

def read (files : Files) (path : List UInt8) : Except ReadFailure (List UInt8) :=
  match files.resolve path with
  | .error failure => .error failure
  | .ok (_, .directory _ _) => .error .isDirectory
  | .ok (way, _) => (files.contents.lookup way).getD (.ok [])

/-- Replaces what stands at the end of a way, making directories on it. What is no directory on the
way is left as it is. -/
def alter (change : Option FileTree → FileTree) : List (List UInt8) → Option FileTree → FileTree
  | [], here => change here
  | step :: way, none => .directory [(step, alter change way none)] 0
  | step :: way, some (.directory entries unlisted) =>
      let inner := alter change way (entries.lookup step)
      .directory ((entries.filter fun entry => entry.1 != step) ++ [(step, inner)]) unlisted
  | _ :: _, some here => here

/-- The way that a path spells out. -/
def wayOf (path : String) : List (List UInt8) :=
  (Path.pieces (Path.ofText path)).filter fun step => step != [] && step != [Path.dot]

def addFile (files : Files) (path : String) (bytes : List UInt8) : Files where
  tree := alter (fun _ => .file) (wayOf path) (some files.tree)
  contents := (wayOf path, .ok bytes) :: files.contents

def addDirectory (files : Files) (path : String) : Files :=
  { files with
    tree := alter (fun here => here.getD (.directory [] 0)) (wayOf path) (some files.tree) }

end Files

end SnippetAudit
