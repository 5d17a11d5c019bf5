import SnippetAudit.Pattern.Search

/-!
What a sweep finds, place by place.

The sweep visits the places of a text from the end to the start and keeps a memory. Here the same
is said without it: what a pattern finds at a place is determined by what is found onward from the
places where it may be left. There is one equation for each form of pattern. A repetition is covered
if each round of it takes a character.
-/

set_option autoImplicit false

namespace SnippetAudit.Pattern

/-- What is found onward from a place, which is given by the text on its two sides. -/
abbrev Onward := List Char → List Char → Option Hit

def placeAt (left right : List Char) : Place where
  offset := left.length
  before := left.getLast?
  after := right.head?

/-- The memory that the sweep has when it comes to a place. -/
def memoryAt (pattern : Pattern) (onward : Onward) : List Char → List Char → Memory pattern
  | _, [] => noMemory pattern
  | left, c :: right =>
      (visit (placeAt (left ++ [c]) right) pattern (memoryAt pattern onward (left ++ [c]) right)
        (onward (left ++ [c]) right)).2

/-- What a pattern finds at a place if it is followed by what `onward` finds. -/
def finds (pattern : Pattern) (onward : Onward) (left right : List Char) : Option Hit :=
  (visit (placeAt left right) pattern (memoryAt pattern onward left right) (onward left right)).1

/-! The forms of patterns -/

section Forms

variable (onward : Onward) (left right : List Char)

theorem finds_empty : finds .empty onward left right = onward left right := rfl

theorem finds_one_nil (set : CharSet) : finds (.one set) onward left [] = none := rfl

theorem finds_one_cons (set : CharSet) (c : Char) :
    finds (.one set) onward left (c :: right) =
      if set.contains c then onward (left ++ [c]) right else none := rfl

theorem finds_look (anchor : Anchor) :
    finds (.look anchor) onward left right =
      if anchor.holds left.getLast? right.head? then onward left right else none := rfl

private theorem memoryAt_seq (first second : Pattern) :
    memoryAt (.seq first second) onward left right =
      (memoryAt first (finds second onward) left right, memoryAt second onward left right) := by
  induction right generalizing left with
  | nil => rfl
  | cons c right ih =>
      rw [memoryAt, ih]
      rfl

theorem finds_seq (first second : Pattern) :
    finds (.seq first second) onward left right = finds first (finds second onward) left right := by
  rw [finds, memoryAt_seq]
  rfl

private theorem memoryAt_alt (first second : Pattern) :
    memoryAt (.alt first second) onward left right =
      (memoryAt first onward left right, memoryAt second onward left right) := by
  induction right generalizing left with
  | nil => rfl
  | cons c right ih =>
      rw [memoryAt, ih]
      rfl

theorem finds_alt (first second : Pattern) :
    finds (.alt first second) onward left right =
      prefer (finds first onward left right) (finds second onward left right) := by
  rw [finds, memoryAt_alt]
  rfl

/-- What is found onward from the end of the marked part. -/
def closing (onward : Onward) : Onward :=
  fun left right => (onward left right).map (Hit.closeName left.length)

private theorem memoryAt_name (inner : Pattern) :
    memoryAt (.name inner) onward left right = memoryAt inner (closing onward) left right := by
  induction right generalizing left with
  | nil => rfl
  | cons c right ih =>
      rw [memoryAt, ih]
      rfl

theorem finds_name (inner : Pattern) :
    finds (.name inner) onward left right =
      (finds inner (closing onward) left right).map (Hit.openName left.length) := by
  rw [finds, memoryAt_name]
  rfl

/-! Repetitions -/

/-- The preferred of another round and the way out. -/
def roundOr (greedy : Bool) (round leave : Option Hit) : Option Hit :=
  if greedy then prefer round leave else prefer leave round

/-- A pattern that takes a character does not look at what follows it at the same place. -/
theorem visit_fst_of_taking {pattern : Pattern} (taking : pattern.mayBeEmpty = false)
    (place : Place) (memory : Memory pattern) (next other : Option Hit) :
    (visit place pattern memory next).1 = (visit place pattern memory other).1 := by
  induction pattern generalizing next other with
  | empty => cases taking
  | one set => rfl
  | look anchor => cases taking
  | seq first second firstIH secondIH =>
      obtain ⟨firstMemory, secondMemory⟩ := memory
      cases firstTaking : first.mayBeEmpty with
      | false => exact firstIH firstTaking firstMemory _ _
      | true =>
          have secondTaking : second.mayBeEmpty = false := by
            simpa [mayBeEmpty, firstTaking] using taking
          have same := secondIH secondTaking secondMemory next other
          simp only [visit, same]
  | alt first second firstIH secondIH =>
      obtain ⟨firstMemory, secondMemory⟩ := memory
      simp only [mayBeEmpty, Bool.or_eq_false_iff] at taking
      simp only [visit, firstIH taking.1 firstMemory next other,
        secondIH taking.2 secondMemory next other]
  | star greedy inner => cases taking
  | plus greedy inner ih =>
      have innerTaking : inner.mayBeEmpty = false := taking
      simp only [visit, innerTaking]
      exact ih innerTaking memory _ _
  | name inner ih =>
      have same := ih taking memory (next.map (Hit.closeName place.offset))
        (other.map (Hit.closeName place.offset))
      simp only [visit, same]

variable (greedy : Bool) {inner : Pattern}

theorem memoryAt_star :
    memoryAt (.star greedy inner) onward left right =
      memoryAt inner (finds (.star greedy inner) onward) left right := by
  induction right generalizing left with
  | nil => rfl
  | cons c right ih =>
      rw [memoryAt, memoryAt, ← ih]
      rfl

/-- A repetition is another round, from which it goes on as from the start, or the way out. -/
theorem finds_star (taking : inner.mayBeEmpty = false) :
    finds (.star greedy inner) onward left right =
      roundOr greedy (finds inner (finds (.star greedy inner) onward) left right)
        (onward left right) := by
  have round : finds inner (finds (.star greedy inner) onward) left right =
      (visit (placeAt left right) inner (memoryAt (.star greedy inner) onward left right)
        none).1 := by
    rw [finds, memoryAt_star]
    exact visit_fst_of_taking taking _ _ _ _
  rw [round]
  rfl

private theorem memoryAt_plus (taking : inner.mayBeEmpty = false) :
    memoryAt (.plus greedy inner) onward left right =
      memoryAt (.star greedy inner) onward left right := by
  induction right generalizing left with
  | nil => rfl
  | cons c right ih =>
      rw [memoryAt, memoryAt, ih]
      simp only [visit, taking]
      rfl

/-- At least one round is a round, and then any number of them. -/
theorem finds_plus (taking : inner.mayBeEmpty = false) :
    finds (.plus greedy inner) onward left right =
      finds inner (finds (.star greedy inner) onward) left right := by
  rw [finds, memoryAt_plus _ _ _ _ taking, finds, ← memoryAt_star]
  simp only [visit, taking]
  rfl

end Forms

/-! The sweep -/

/-- What is found where the whole pattern is left. -/
def ending : Onward :=
  fun left _ => some { stop := left.length, mark := .absent }

/-- The places of a text from one of them on. -/
def placesFrom : List Char → List Char → List Place
  | left, [] => [placeAt left []]
  | left, c :: right => placeAt left (c :: right) :: placesFrom (left ++ [c]) right

private theorem placesFrom_eq (left right : List Char) :
    (((left.getLast? :: right.map some).zip (right.map some ++ [none])).zipIdx left.length).map
        (fun ((before, after), offset) => ({ offset, before, after } : Place)) =
      placesFrom left right := by
  induction right generalizing left with
  | nil => rfl
  | cons c right ih =>
      have next := ih (left ++ [c])
      rw [List.getLast?_append, List.length_append] at next
      rw [placesFrom, ← next]
      rfl

/-- The match from a place, if there is one. -/
def startingAt (pattern : Pattern) (left right : List Char) : List Match :=
  (finds pattern ending left right).toList.map (matchFrom left.length)

/-- The matches that start at a place or behind it. -/
def startingFrom (pattern : Pattern) : List Char → List Char → List Match
  | left, [] => startingAt pattern left []
  | left, c :: right =>
      startingAt pattern left (c :: right) ++ startingFrom pattern (left ++ [c]) right

private theorem step_eq_visit (pattern : Pattern) (place : Place) (sweep : Sweep pattern) :
    Sweep.step pattern place sweep =
      { found :=
          (visit place pattern sweep.memory
              (some { stop := place.offset, mark := .absent })).1.toList.map
            (matchFrom place.offset) ++ sweep.found
        memory :=
          (visit place pattern sweep.memory
            (some { stop := place.offset, mark := .absent })).2 } := by
  unfold Sweep.step
  generalize visit place pattern sweep.memory
    (some { stop := place.offset, mark := .absent }) = visited
  obtain ⟨found, memory⟩ := visited
  cases found <;> rfl

/-- One step of the sweep adds the match from its place. -/
theorem step_eq (pattern : Pattern) (left right : List Char) (found : List Match) :
    Sweep.step pattern (placeAt left right)
        { found, memory := memoryAt pattern ending left right } =
      { found := startingAt pattern left right ++ found
        memory :=
          (visit (placeAt left right) pattern (memoryAt pattern ending left right)
            (ending left right)).2 } :=
  step_eq_visit pattern (placeAt left right) _

private theorem sweep_eq (pattern : Pattern) (left right : List Char) :
    (placesFrom left right).foldr (Sweep.step pattern)
        { found := [], memory := noMemory pattern } =
      { found := startingFrom pattern left right
        memory :=
          (visit (placeAt left right) pattern (memoryAt pattern ending left right)
            (ending left right)).2 } := by
  induction right generalizing left with
  | nil => exact (step_eq pattern left [] []).trans (by rw [List.append_nil, startingFrom])
  | cons c right ih =>
      rw [placesFrom, List.foldr_cons, ih]
      exact step_eq pattern left (c :: right) _

theorem candidates_eq (pattern : Pattern) (text : List Char) :
    candidates pattern text = startingFrom pattern [] text := by
  have all : places text = placesFrom [] text := placesFrom_eq [] text
  rw [candidates, all, sweep_eq]

private theorem mem_startingAt {pattern : Pattern} {left right : List Char} {found : Match} :
    found ∈ startingAt pattern left right ↔
      ∃ hit, finds pattern ending left right = some hit ∧ matchFrom left.length hit = found := by
  simp only [startingAt, List.mem_map, Option.mem_toList]

/-- The matches that start at a place or behind it are what the pattern finds there. -/
theorem mem_startingFrom {pattern : Pattern} {left right : List Char} {found : Match} :
    found ∈ startingFrom pattern left right ↔
      ∃ before after, right = before ++ after ∧
        found ∈ startingAt pattern (left ++ before) after := by
  induction right generalizing left with
  | nil =>
      rw [startingFrom]
      constructor
      · intro member
        exact ⟨[], [], rfl, by rwa [List.append_nil]⟩
      · intro starts
        obtain ⟨before, after, split, member⟩ := starts
        obtain ⟨rfl, rfl⟩ := List.append_eq_nil_iff.mp split.symm
        rwa [List.append_nil] at member
  | cons c right ih =>
      rw [startingFrom, List.mem_append, ih]
      constructor
      · intro starts
        cases starts with
        | inl member => exact ⟨[], c :: right, rfl, by rwa [List.append_nil]⟩
        | inr later =>
            obtain ⟨before, after, rfl, member⟩ := later
            exact ⟨c :: before, after, rfl, by rwa [List.append_assoc] at member⟩
      · intro starts
        obtain ⟨before, after, split, member⟩ := starts
        cases before with
        | nil =>
            obtain rfl : c :: right = after := split
            rw [List.append_nil] at member
            exact .inl member
        | cons first before =>
            obtain ⟨rfl, rfl⟩ := List.cons.inj split
            exact .inr ⟨before, after, rfl, by rwa [List.append_assoc]⟩

theorem mem_candidates {pattern : Pattern} {text : List Char} {found : Match} :
    found ∈ candidates pattern text ↔
      ∃ left right hit, text = left ++ right ∧ finds pattern ending left right = some hit ∧
        matchFrom left.length hit = found := by
  rw [candidates_eq, mem_startingFrom]
  simp only [List.nil_append, mem_startingAt, exists_and_left]

theorem occursIn_iff_finds {pattern : Pattern} {text : List Char} :
    pattern.occursIn text = true ↔
      ∃ left right, text = left ++ right ∧ (finds pattern ending left right).isSome = true := by
  rw [occursIn, Bool.not_eq_true', List.isEmpty_eq_false_iff_exists_mem]
  simp only [mem_candidates, Option.isSome_iff_exists]
  constructor
  · intro occurs
    obtain ⟨_, left, right, hit, split, found, _⟩ := occurs
    exact ⟨left, right, split, hit, found⟩
  · intro occurs
    obtain ⟨left, right, split, hit, found⟩ := occurs
    exact ⟨_, left, right, hit, split, found, rfl⟩

end SnippetAudit.Pattern
