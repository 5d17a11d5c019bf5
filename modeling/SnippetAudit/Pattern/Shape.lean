import SnippetAudit.Pattern.Basic

/-!
The shape of a pattern: what its text describes, before repetitions are written out.

Shapes are put together by functions that leave out what makes no difference: empty parts of a
sequence, groups around alternatives that only group, repetitions of what takes no character. What
all alternatives start with is put in front of them once. This settles the order in which a
repetition in front of alternatives is tried: it is decided for all of them together.
-/

set_option autoImplicit false

namespace SnippetAudit

/-- What a pattern text describes. Sequences and alternatives are nested to the right. A repetition
without `most` has no upper bound; a group is capturing and carries its number, from 1 on. -/
inductive Shape where
  | empty
  | one (set : CharSet)
  | look (anchor : Anchor)
  | seq (first rest : Shape)
  | alt (first rest : Shape)
  | rounds (least : Nat) (most : Option Nat) (greedy : Bool) (inner : Shape)
  | group (number : Nat) (inner : Shape)
  deriving DecidableEq, Repr

namespace Shape

/-- The parts of a sequence. -/
def parts : Shape → List Shape
  | .empty => []
  | .seq first rest => first :: rest.parts
  | shape => [shape]

/-- The branches of an alternative. -/
def branches : Shape → List Shape
  | .alt first rest => first :: rest.branches
  | shape => [shape]

/-- The parts one after the other. -/
def inTurn : List Shape → Shape
  | [] => .empty
  | [part] => part
  | part :: others => .seq part (inTurn others)

/-- The first branch that fits, in order of preference. -/
def firstOf : List Shape → Shape
  | [] => .empty
  | [branch] => branch
  | branch :: others => .alt branch (firstOf others)

/-- The shapes one after the other, as one sequence. -/
def sequence (shapes : List Shape) : Shape :=
  inTurn (shapes.flatMap parts)

/-- The union of the sets, if all shapes are single characters. -/
def unionOf? : List Shape → Option CharSet
  | [] => some .nothing
  | .one set :: others => (unionOf? others).map set.union
  | _ => none

/-- The branches as one alternative, or as one set if all of them are single characters. -/
def plainChoice (shapes : List Shape) : Shape :=
  match unionOf? shapes with
  | some set => .one set
  | none => firstOf (shapes.flatMap branches)

/-- What two lists have in common at their start. -/
def sharedStart : List Shape → List Shape → List Shape
  | first :: firsts, second :: seconds =>
      if first = second then first :: sharedStart firsts seconds else []
  | _, _ => []

/-- What all rows have in common at their start, if each of them has two parts or more. -/
def commonStart : List (List Shape) → List Shape
  | [] => []
  | row :: rows =>
      if (row :: rows).all (2 ≤ ·.length) then rows.foldl sharedStart row else []

/-- The first of the shapes that fits, in order of preference. Their common start is put in front
of the choice. -/
def choice (shapes : List Shape) : Shape :=
  match shapes.flatMap branches with
  | [shape] => shape
  | shapes =>
      let rows := shapes.map parts
      match commonStart rows with
      | [] => plainChoice shapes
      | start =>
          sequence (start ++ [plainChoice (rows.map fun row => inTurn (row.drop start.length))])

/-- Whether the shape takes no character in any match. -/
def isIdle : Shape → Bool
  | .empty => true
  | .one _ => false
  | .look _ => true
  | .seq first rest => first.isIdle && rest.isIdle
  | .alt first rest => first.isIdle && rest.isIdle
  | .rounds _ most _ inner => most.isSome && inner.isIdle
  | .group _ inner => inner.isIdle

/-- The repetition of a shape. One round of an idle shape is as good as many. -/
def repeated (least : Nat) (most : Option Nat) (greedy : Bool) (inner : Shape) : Shape :=
  let least := if inner.isIdle then min least 1 else least
  let most := if inner.isIdle then some (min (most.getD 1) 1) else most
  if most = some 0 then .empty
  else if least = 1 && most = some 1 then inner
  else .rounds least most greedy inner

/-- The number of parts once all repetitions are written out. -/
def size : Shape → Nat
  | .empty => 1
  | .one _ => 1
  | .look _ => 1
  | .seq first rest => first.size + rest.size
  | .alt first rest => 1 + first.size + rest.size
  | .rounds least none _ inner => 1 + max least 1 * inner.size
  | .rounds least (some most) _ inner => 1 + most * inner.size + (most - least)
  | .group _ inner => 2 + inner.size

/-- The pattern of a shape. The first group is the name of a match; the others only group. -/
def pattern : Shape → Pattern
  | .empty => .empty
  | .one set => .one set
  | .look anchor => .look anchor
  | .seq first rest => .seq first.pattern rest.pattern
  | .alt first rest => .alt first.pattern rest.pattern
  | .rounds least none greedy inner => inner.pattern.atLeast greedy least
  | .rounds least (some most) greedy inner => inner.pattern.between greedy least most
  | .group number inner => if number = 1 then .name inner.pattern else inner.pattern

end Shape

end SnippetAudit
