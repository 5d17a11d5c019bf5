/-!
Colours of terminal text.
-/

set_option autoImplicit false

namespace SnippetAudit.Report

/-- How a piece of text is set off. -/
inductive Style where
  | plain
  | bold
  | dimmed
  deriving DecidableEq, Repr

inductive Colour where
  | red
  | green
  | yellow
  | cyan
  deriving DecidableEq, Repr

/-- A style with a colour, if there is one. -/
structure Ink where
  style : Style := .plain
  colour : Option Colour := none
  deriving DecidableEq, Repr

def Style.code? : Style → Option String
  | .plain => none
  | .bold => some "1"
  | .dimmed => some "2"

def Colour.code : Colour → String
  | .red => "31"
  | .green => "32"
  | .yellow => "33"
  | .cyan => "36"

/-- The sequence that ends every style. -/
def resetSequence : String := "\x1b[0m"

/-- The sequence that starts an ink, its style before its colour. -/
def Ink.sequence (ink : Ink) : String :=
  "\x1b[" ++ ";".intercalate (ink.style.code?.toList ++ (ink.colour.map Colour.code).toList) ++ "m"

/-- Starts the ink anew behind every reset that is in the text itself; `skip` characters are passed
over. -/
def reink (sequence : List Char) (skip : Nat) : List Char → List Char
  | [] => []
  | c :: rest =>
      match skip with
      | skip + 1 => c :: (if skip = 0 then sequence else []) ++ reink sequence skip rest
      | 0 =>
          if resetSequence.toList.isPrefixOf (c :: rest) then
            c :: reink sequence (resetSequence.length - 1) rest
          else c :: reink sequence 0 rest

/-- A piece of text in an ink, or plain where colours are off. -/
def paint (coloured : Bool) (ink : Ink) (text : String) : String :=
  if coloured then
    let sequence := ink.sequence
    sequence ++ String.ofList (reink sequence.toList 0 text.toList) ++ resetSequence
  else text

end SnippetAudit.Report
