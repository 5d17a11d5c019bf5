import SnippetAudit.Text.LetterData

/-!
Lower case of a whole text.

Each letter is mapped on its own, with two exceptions: the dotted capital I becomes two characters,
and a capital sigma becomes a final sigma where it ends a word.
-/

set_option autoImplicit false

namespace SnippetAudit.Text

/-- The lower-case letter of a character, or the character itself. -/
def lowerChar (c : Char) : Char :=
  let holds (run : LowerRun) : Bool :=
    run.first ≤ c.toNat && c.toNat ≤ run.last && (c.toNat - run.first) % run.stride = 0
  match lowerRuns.find? holds with
  | some run => Char.ofNat (c.toNat + run.shift).toNat
  | none => c

def isCased (c : Char) : Bool :=
  inRanges casedRanges c

def isCaseIgnorable (c : Char) : Bool :=
  inRanges caseIgnorableRanges c

/-- Whether the first character that is not case-ignorable is a cased one. -/
def meetsCased (text : List Char) : Bool :=
  (text.dropWhile isCaseIgnorable).head?.any isCased

/-- A capital sigma ends a word when a cased letter stands before it and none behind it. -/
def lowerSigma (before after : List Char) : Char :=
  if meetsCased before && !meetsCased after then '\u03c2' else '\u03c3'

/-- Lower case of a text; `before` is what precedes it, last character first. -/
def lowerAfter (before : List Char) : List Char → List Char
  | [] => []
  | c :: rest =>
      let mapped :=
        if c = '\u03a3' then [lowerSigma before rest]
        else if c = '\u0130' then ['i', '\u0307']
        else [lowerChar c]
      mapped ++ lowerAfter (c :: before) rest

/-- Lower case of a text. -/
def lowercase (text : List Char) : List Char :=
  lowerAfter [] text

end SnippetAudit.Text
