import SnippetAudit.Pattern.CharSet

/-!
Patterns: what a piece of text has to look like.

A pattern is tried from left to right and in order of preference: the first part of an alternative
before the second, another round of a greedy repetition before leaving it. One part of a pattern
may be marked as the name that a match is reported under.
-/

set_option autoImplicit false

namespace SnippetAudit

/-- Whether a character belongs to a word: a letter or digit of ASCII, or the underscore. -/
def isWordChar (c : Char) : Bool :=
  CharSet.word.contains c

/-- A condition on a place in the text, given by the characters on its two sides. -/
inductive Anchor where
  | textStart
  | textEnd
  | lineStart
  | lineEnd
  | anyLineStart
  | anyLineEnd
  | wordEdge
  | notWordEdge
  | wordStart
  | wordEnd
  | wordStartHalf
  | wordEndHalf
  deriving DecidableEq, Repr

/-- A line ends before a line feed. The `anyLine` anchors also take a carriage return as a line
end, and treat a carriage return with its line feed as one. -/
def Anchor.holds (before after : Option Char) : Anchor → Bool
  | .textStart => before.isNone
  | .textEnd => after.isNone
  | .lineStart => before.isNone || before = some '\n'
  | .lineEnd => after.isNone || after = some '\n'
  | .anyLineStart =>
      before.isNone || before = some '\n' || (before = some '\r' && after != some '\n')
  | .anyLineEnd =>
      after.isNone || after = some '\r' || (after = some '\n' && before != some '\r')
  | .wordEdge => before.any isWordChar != after.any isWordChar
  | .notWordEdge => before.any isWordChar == after.any isWordChar
  | .wordStart => !before.any isWordChar && after.any isWordChar
  | .wordEnd => before.any isWordChar && !after.any isWordChar
  | .wordStartHalf => !before.any isWordChar
  | .wordEndHalf => !after.any isWordChar

/-- A pattern. `star` is any number of rounds of a body that takes a character in each; `plus` is
one round or more of any body; `name` marks the part that names a match. -/
inductive Pattern where
  | empty
  | one (set : CharSet)
  | look (anchor : Anchor)
  | seq (first second : Pattern)
  | alt (first second : Pattern)
  | star (greedy : Bool) (inner : Pattern)
  | plus (greedy : Bool) (inner : Pattern)
  | name (inner : Pattern)
  deriving DecidableEq, Repr

namespace Pattern

/-- Whether the pattern can match without taking a character. -/
def mayBeEmpty : Pattern → Bool
  | .empty => true
  | .one _ => false
  | .look _ => true
  | .seq first second => first.mayBeEmpty && second.mayBeEmpty
  | .alt first second => first.mayBeEmpty || second.mayBeEmpty
  | .star _ _ => true
  | .plus _ inner => inner.mayBeEmpty
  | .name inner => inner.mayBeEmpty

/-- Once or not at all. -/
def optional (greedy : Bool) (inner : Pattern) : Pattern :=
  if greedy then .alt inner .empty else .alt .empty inner

/-- Exactly `count` rounds, then the rest. -/
def timesThen (inner rest : Pattern) : Nat → Pattern
  | 0 => rest
  | 1 => if rest = .empty then inner else .seq inner rest
  | count + 2 => .seq inner (timesThen inner rest (count + 1))

/-- Up to `count` rounds. -/
def upTo (greedy : Bool) (inner : Pattern) : Nat → Pattern
  | 0 => .empty
  | 1 => optional greedy inner
  | count + 2 => optional greedy (.seq inner (upTo greedy inner (count + 1)))

/-- At least `least` rounds. -/
def atLeast (greedy : Bool) (inner : Pattern) : Nat → Pattern
  | 0 => if inner.mayBeEmpty then optional greedy (.plus greedy inner) else .star greedy inner
  | least + 1 => timesThen inner (.plus greedy inner) least

/-- At least `least` and at most `most` rounds. -/
def between (greedy : Bool) (inner : Pattern) (least most : Nat) : Pattern :=
  timesThen inner (upTo greedy inner (most - least)) least

end Pattern

end SnippetAudit
