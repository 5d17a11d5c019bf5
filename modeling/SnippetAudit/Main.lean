import SnippetAudit.Command.Session

/-!
The program: lists what the paths of its arguments name, reads the inputs that a run on them reads,
and prints what the run leaves behind.

Which files are inputs is decided by the run alone. What is listed here is listed whole.
-/

set_option autoImplicit false

namespace SnippetAudit.Command

def failureOf : IO.Error → ReadFailure
  | .inappropriateType _ code _ => if code = 21 then .isDirectory else .notDirectory
  | .permissionDenied .. => .denied
  | _ => .missing

/-- What reading gives, or why it fails. -/
def attempt (reading : IO ByteArray) : IO (Except ReadFailure (List UInt8)) := do
  try
    return .ok (← reading).toList
  catch error =>
    return .error (failureOf error)

/-- What stands in a directory, however deep, with the number of its entries that tell nothing.
Links are not followed. -/
partial def listEntries (entries : List IO.FS.DirEntry) :
    IO (List (List UInt8 × FileTree) × Nat) := do
  let mut trees := []
  let mut unlisted := 0
  for entry in entries do
    try
      let tree ← match (← entry.path.symlinkMetadata).type with
        | .dir =>
            try
              let (inner, count) ← listEntries (← entry.path.readDir).toList
              pure (FileTree.directory inner count)
            catch _ => pure (.directory [] 1)
        | .file => pure .file
        | _ => pure .other
      trees := (Path.ofText entry.fileName, tree) :: trees
    catch _ => unlisted := unlisted + 1
  return (trees, unlisted)

/-- The directory that a path names, if it names one. -/
def listDirectory? (path : List UInt8) : IO (Option FileTree) := do
  try
    let place ← IO.FS.realPath (Path.shown path)
    if ← place.isDir then
      try
        let (entries, unlisted) ← listEntries (← place.readDir).toList
        return some (.directory entries unlisted)
      catch _ => return some (.directory [] 1)
    else return none
  catch _ => return none

/-- All bytes of standard input. -/
partial def readConsole (input : IO.FS.Stream) (done : ByteArray) : IO ByteArray := do
  let bytes ← input.read 65536
  if bytes.isEmpty then return done else readConsole input (done ++ bytes)

/-- Reads all that the run of an invocation reads. -/
def observe (invocation : Invocation) : IO Surroundings := do
  let trees ← invocation.task.paths.mapM fun path => return (path, ← listDirectory? path)
  let look (path : List UInt8) : Option FileTree := (trees.lookup path).join
  let inputs := invocation.task.inputs look
  let files := invocation.settingsPath :: inputs.filterMap Input.path?
  let contents ← files.mapM fun path =>
    return (path, ← attempt (IO.FS.readBinFile (Path.shown path)))
  let console ←
    if inputs.any Input.isConsole then attempt (readConsole (← IO.getStdin) .empty)
    else pure (.ok [])
  return {
    look
    read := fun path => (contents.lookup path).getD (.error .missing)
    console
    coloured := ← (← IO.getStdout).isTty }

def usageText : String :=
  "Usage: codeengage [OPTIONS] <analyze|detect|restore|catalog>\n"

end SnippetAudit.Command

open SnippetAudit.Command in
def main (arguments : List String) : IO UInt32 := do
  match Invocation.ofArguments arguments with
  | .error .usage =>
      IO.eprint usageText
      return 2
  | .error .help =>
      IO.print usageText
      return 0
  | .error .version =>
      IO.print versionText
      return 0
  | .ok invocation =>
      let outcome := run (← observe invocation) invocation
      outcome.log.forM IO.eprintln
      IO.print outcome.output
      return UInt32.ofNat outcome.exit.code
