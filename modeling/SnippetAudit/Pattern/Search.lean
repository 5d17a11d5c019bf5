import SnippetAudit.Pattern.Basic

/-!
Searching a text for a pattern.

The text is swept once, from its end to its start. At each place the sweep knows, for every
single-character part of the pattern, what the rest of the pattern found one character further on;
from this it works out what the whole pattern finds when it starts here. Preference is kept because
of two ways to go on the preferred one is asked first. So the preferred match from every starting
place is known after time proportional to the length of the text.

A repetition whose body may be empty could come back to itself without moving on. There a path is
followed through the body, and a spot of the pattern that the path has been at is not entered again
before a character is taken. The same holds for a spot that was tried at this place before.
-/

set_option autoImplicit false

namespace SnippetAudit

/-- Where the marked name of a match lies, as far as the sweep has come. -/
inductive NameMark where
  | absent
  | endingAt (stop : Nat)
  | spanning (start stop : Nat)
  deriving DecidableEq, Repr

/-- What is known of a match before its start is reached: where it ends and where its name is. -/
structure Hit where
  stop : Nat
  mark : NameMark
  deriving DecidableEq, Repr

namespace Hit

/-- Passes the end of the marked part, backwards. A mark from further on in the text is kept, so
the last round of a repetition gives the name. -/
def closeName (offset : Nat) (hit : Hit) : Hit :=
  match hit.mark with
  | .absent => { hit with mark := .endingAt offset }
  | _ => hit

/-- Passes the start of the marked part, backwards. -/
def openName (offset : Nat) (hit : Hit) : Hit :=
  match hit.mark with
  | .endingAt stop => { hit with mark := .spanning offset stop }
  | _ => hit

end Hit

/-- A match: the offsets of its two ends, in characters, and those of its name if it has one. -/
structure Match where
  start : Nat
  stop : Nat
  nameSpan : Option (Nat × Nat)
  deriving DecidableEq, Repr

/-- A place in a text: its offset and the characters on its two sides. -/
structure Place where
  offset : Nat
  before : Option Char
  after : Option Char

namespace Pattern

/-- What the sweep carries from one place to the next for a pattern: for each single-character
part, what follows that part finds one place further on. -/
def Memory : Pattern → Type
  | .empty => Unit
  | .one _ => Option Hit
  | .look _ => Unit
  | .seq first second => Memory first × Memory second
  | .alt first second => Memory first × Memory second
  | .star _ inner => Memory inner
  | .plus _ inner => Memory inner
  | .name inner => Memory inner

/-- The memory beyond the end of the text: nothing is found there. -/
def noMemory : (pattern : Pattern) → Memory pattern
  | .empty => ()
  | .one _ => none
  | .look _ => ()
  | .seq first second => (noMemory first, noMemory second)
  | .alt first second => (noMemory first, noMemory second)
  | .star _ inner => noMemory inner
  | .plus _ inner => noMemory inner
  | .name inner => noMemory inner

/-- The preferred of two findings. -/
def prefer (first second : Option Hit) : Option Hit :=
  match first with
  | some hit => some hit
  | none => second

/-! Paths through a repetition whose body may be empty -/

/-- A way to go on from a place. It is given the spots tried at the place so far, as the bits of a
number, and returns what it finds and the spots tried then. -/
abbrev Attempt := Nat → Option Hit × Nat

namespace Attempt

def give (found : Option Hit) : Attempt :=
  fun tried => (found, tried)

/-- Goes on only if the spot was not tried yet. -/
def once (spot : Nat) (attempt : Attempt) : Attempt :=
  fun tried => if tried.testBit spot then (none, tried) else attempt (tried ||| 1 <<< spot)

/-- The first attempt and, if it finds nothing, the second. -/
def orElse (first second : Attempt) : Attempt :=
  fun tried =>
    match first tried with
    | (some hit, tried) => (some hit, tried)
    | (none, tried) => second tried

def map (change : Hit → Hit) (attempt : Attempt) : Attempt :=
  fun tried =>
    let (found, tried) := attempt tried
    (found.map change, tried)

/-- Another round or the way out of a repetition, in order of preference. -/
def roundOrLeave (greedy : Bool) (round leave : Attempt) : Attempt :=
  if greedy then orElse round leave else orElse leave round

end Attempt

/-- The number of spots at which a pattern has to be told whether it was tried: its alternatives
and, for a repetition, the start of its body and the point behind it. -/
def spots : Pattern → Nat
  | .empty => 0
  | .one _ => 0
  | .look _ => 0
  | .seq first second => first.spots + second.spots
  | .alt first second => 1 + first.spots + second.spots
  | .star _ inner => 1 + inner.spots
  | .plus _ inner => 2 + inner.spots
  | .name inner => inner.spots

/-- The attempt to match a pattern from a place and to go on with `next`. The spots of the pattern
are numbered from `spot` on. -/
def walk (place : Place) : (pattern : Pattern) → Memory pattern → Nat → Attempt → Attempt
  | .empty, _, _, next => next
  | .one set, ahead, _, _ => .give (if place.after.any set.contains then ahead else none)
  | .look anchor, _, _, next =>
      if anchor.holds place.before place.after then next else .give none
  | .seq first second, (firstMemory, secondMemory), spot, next =>
      walk place first firstMemory spot
        (walk place second secondMemory (spot + first.spots) next)
  | .alt first second, (firstMemory, secondMemory), spot, next =>
      .once spot
        (.orElse (walk place first firstMemory (spot + 1) next)
          (walk place second secondMemory (spot + 1 + first.spots) next))
  | .star greedy inner, memory, spot, next =>
      .once spot (.roundOrLeave greedy (walk place inner memory (spot + 1) (.give none)) next)
  | .plus greedy inner, memory, spot, next =>
      let round (next : Attempt) : Attempt :=
        .once (spot + 1) (walk place inner memory (spot + 2) next)
      round (.once spot (.roundOrLeave greedy (round (.give none)) next))
  | .name inner, memory, spot, next =>
      (walk place inner memory spot (next.map (Hit.closeName place.offset))).map
        (Hit.openName place.offset)

/-- The memory for the place before: for each single-character part, what the attempt to go on
behind it finds here. -/
def remember (place : Place) :
    (pattern : Pattern) → Memory pattern → Nat → Attempt → Memory pattern
  | .empty, memory, _, _ => memory
  | .one _, _, _, next => (next 0).1
  | .look _, memory, _, _ => memory
  | .seq first second, (firstMemory, secondMemory), spot, next =>
      let secondSpot := spot + first.spots
      (remember place first firstMemory spot (walk place second secondMemory secondSpot next),
        remember place second secondMemory secondSpot next)
  | .alt first second, (firstMemory, secondMemory), spot, next =>
      (remember place first firstMemory (spot + 1) next,
        remember place second secondMemory (spot + 1 + first.spots) next)
  | .star greedy inner, memory, spot, next =>
      remember place inner memory (spot + 1) (walk place (.star greedy inner) memory spot next)
  | .plus greedy inner, memory, spot, next =>
      let round := Attempt.once (spot + 1) (walk place inner memory (spot + 2) (.give none))
      remember place inner memory (spot + 2) (.once spot (.roundOrLeave greedy round next))
  | .name inner, memory, spot, next =>
      remember place inner memory spot (next.map (Hit.closeName place.offset))

/-! The sweep -/

/-- What the pattern finds from a place, given what is found when it is left at that same place
(`next`), together with the memory for the place before. -/
def visit (place : Place) :
    (pattern : Pattern) → Memory pattern → Option Hit → Option Hit × Memory pattern
  | .empty, memory, next => (next, memory)
  | .one set, ahead, next => (if place.after.any set.contains then ahead else none, next)
  | .look anchor, memory, next =>
      (if anchor.holds place.before place.after then next else none, memory)
  | .seq first second, (firstMemory, secondMemory), next =>
      let (middle, secondMemory) := visit place second secondMemory next
      let (found, firstMemory) := visit place first firstMemory middle
      (found, (firstMemory, secondMemory))
  | .alt first second, (firstMemory, secondMemory), next =>
      let (left, firstMemory) := visit place first firstMemory next
      let (right, secondMemory) := visit place second secondMemory next
      (prefer left right, (firstMemory, secondMemory))
  | .star greedy inner, memory, next =>
      let more := (visit place inner memory none).1
      let found := if greedy then prefer more next else prefer next more
      (found, (visit place inner memory found).2)
  | .plus greedy inner, memory, next =>
      if inner.mayBeEmpty then
        let next := Attempt.give next
        ((walk place (.plus greedy inner) memory 0 next 0).1,
          remember place (.plus greedy inner) memory 0 next)
      else
        let more := (visit place inner memory none).1
        visit place inner memory (if greedy then prefer more next else prefer next more)
  | .name inner, memory, next =>
      let (found, memory) := visit place inner memory (next.map (Hit.closeName place.offset))
      (found.map (Hit.openName place.offset), memory)

/-- The match that a finding stands for, once its start is known. -/
def matchFrom (start : Nat) (hit : Hit) : Match where
  start
  stop := hit.stop
  nameSpan :=
    match hit.mark with
    | .spanning nameStart nameStop => some (nameStart, nameStop)
    | _ => none

/-- The state of a sweep: the matches found so far, leftmost first, and the memory. -/
structure Sweep (pattern : Pattern) where
  found : List Match
  memory : Memory pattern

/-- One step of the sweep: tries the pattern from one more place. -/
def Sweep.step (pattern : Pattern) (place : Place) (sweep : Sweep pattern) : Sweep pattern :=
  let (found, memory) :=
    visit place pattern sweep.memory (some { stop := place.offset, mark := .absent })
  { found :=
      match found with
      | some hit => matchFrom place.offset hit :: sweep.found
      | none => sweep.found
    memory }

/-- The places of a text, from its start to its end. -/
def places (text : List Char) : List Place :=
  let befores := none :: text.map some
  let afters := text.map some ++ [none]
  (befores.zip afters).zipIdx.map fun ((before, after), offset) => { offset, before, after }

/-- The preferred match from each place where the pattern matches, in order of their starts. -/
def candidates (pattern : Pattern) (text : List Char) : List Match :=
  ((places text).foldr (Sweep.step pattern) { found := [], memory := noMemory pattern }).found

/-- Keeps a match unless it overlaps the one kept last, which stands first. An empty match directly
at the end of that one is passed over as well. -/
def keepApart (kept : List Match) (found : Match) : List Match :=
  match kept with
  | [] => [found]
  | last :: _ =>
      if last.stop < found.start || (last.stop = found.start && found.start < found.stop) then
        found :: kept
      else kept

/-- The matches in a text, from left to right, without overlap. -/
def occurrences (pattern : Pattern) (text : List Char) : List Match :=
  ((candidates pattern text).foldl keepApart []).reverse

/-- Whether the pattern matches somewhere in the text. -/
def occursIn (pattern : Pattern) (text : List Char) : Bool :=
  !(candidates pattern text).isEmpty

/-- How often the pattern occurs in the text. -/
def count (pattern : Pattern) (text : List Char) : Nat :=
  (occurrences pattern text).length

/-- The characters from one offset up to another. -/
def slice (text : List Char) (start stop : Nat) : List Char :=
  (text.drop start).take (stop - start)

/-- The names of the matches, in order. A match in which the marked part takes no part has none. -/
def names (pattern : Pattern) (text : List Char) : List (List Char) :=
  (occurrences pattern text).filterMap fun found =>
    found.nameSpan.map fun (start, stop) => slice text start stop

end Pattern

end SnippetAudit
