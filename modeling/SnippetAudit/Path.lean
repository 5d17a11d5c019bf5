import SnippetAudit.Text.Utf8

/-!
Paths: bytes, in which slashes divide the names. They are not always text.
-/

set_option autoImplicit false

namespace SnippetAudit.Path

def slash : UInt8 := 0x2F

def dot : UInt8 := 0x2E

/-- The path that a text spells. -/
def ofText (text : String) : List UInt8 :=
  Text.Utf8.encode text.toList

/-- A path or name as text. What is not UTF-8 is replaced. -/
def shown (path : List UInt8) : String :=
  String.ofList (Text.Utf8.decodeLossy path)

/-- The pieces between the slashes of a path, empty ones included. -/
def pieces (path : List UInt8) : List (List UInt8) :=
  path.foldr
    (fun byte pieces =>
      if byte = slash then [] :: pieces
      else
        match pieces with
        | [] => [[byte]]
        | piece :: rest => (byte :: piece) :: rest)
    [[]]

/-- The names in a path. Empty pieces and, except at its start, single dots name nothing. -/
def names (path : List UInt8) : List (List UInt8) :=
  let meaningful (piece : List UInt8) : Bool := piece ≠ [] && piece ≠ [dot]
  match pieces path with
  | [] => []
  | first :: rest => (if first = [] then [] else [first]) ++ rest.filter meaningful

/-- The last name of a path, unless that is a dot or two. -/
def fileName? (path : List UInt8) : Option (List UInt8) :=
  match (names path).getLast? with
  | some label => if label = [dot] || label = [dot, dot] then none else some label
  | none => none

/-- The part of a name behind its last dot, unless that dot is its first byte. -/
def extension? (label : List UInt8) : Option (List UInt8) :=
  let backwards := label.reverse
  match backwards.dropWhile (· ≠ dot) with
  | _ :: _ :: _ => some (backwards.takeWhile (· ≠ dot)).reverse
  | _ => none

/-- The path of an entry of a directory. -/
def join (directory label : List UInt8) : List UInt8 :=
  match directory.getLast? with
  | none => label
  | some last => if last = slash then directory ++ label else directory ++ slash :: label

end SnippetAudit.Path
