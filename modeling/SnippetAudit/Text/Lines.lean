/-!
Lines of a text: the pieces between line feeds. The empty text is one empty line, and a text that
ends in a line feed has an empty last line.
-/

set_option autoImplicit false

namespace SnippetAudit.Text

/-- Puts one character in front of lines already split: a line feed opens a new line. -/
def pushToLines (c : Char) (lines : List (List Char)) : List (List Char) :=
  if c = '\n' then
    [] :: lines
  else
    match lines with
    | [] => [[c]]
    | line :: rest => (c :: line) :: rest

/-- The lines of a text, without their line feeds. -/
def lines (text : List Char) : List (List Char) :=
  text.foldr pushToLines [[]]

/-- The characters that leave a line blank: space, tab, line feed, carriage return, NUL and
vertical tab. Other white space, such as form feed, does not. -/
def isBlankChar (c : Char) : Bool :=
  c = ' ' || c = '\t' || c = '\n' || c = '\r' || c = '\x00' || c = '\x0b'

/-- Whether a line holds blank characters only. -/
def isBlankLine (line : List Char) : Bool :=
  line.all isBlankChar

/-- The lines that are not blank. -/
def solidLines (text : List Char) : List (List Char) :=
  (lines text).filter fun line => !isBlankLine line

/-- Length in bytes of the UTF-8 form. -/
def byteLength (text : List Char) : Nat :=
  text.foldl (fun total c => total + c.utf8Size) 0

/-- Each character of a text with the one that follows it. -/
def withNext (text : List Char) : List (Char × Option Char) :=
  text.zip (text.tail.map some ++ [none])

/-- Writes a line feed for each pair of carriage return and line feed. A carriage return that no
line feed follows is kept. -/
def unixEndings (text : List Char) : List Char :=
  (withNext text).filterMap fun (c, next) =>
    if c = '\r' && next = some '\n' then none else some c

end SnippetAudit.Text
