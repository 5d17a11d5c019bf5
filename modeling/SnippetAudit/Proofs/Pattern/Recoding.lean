import SnippetAudit.Proofs.Scan.Phrases
import SnippetAudit.Proofs.Text.Recoding

/-!
Patterns that see no difference between characters beyond ASCII.

A set is opaque if it holds all characters beyond ASCII or none of them. A pattern whose sets are
opaque is swept over a recoded text exactly as over the text itself, so it matches at the same
offsets, and its names are recoded with the text.
-/

set_option autoImplicit false

namespace SnippetAudit

open Text (Recoding isAscii)

/-! Sets and anchors -/

/-- Every range ends within ASCII or holds all that is beyond. -/
def CharSet.isOpaque (set : CharSet) : Bool :=
  set.ranges.all fun range => range.2 < 128 || (range.1 ≤ 128 && lastCode ≤ range.2)

/-- Which character beyond ASCII it is plays no part in whether an opaque set holds it. -/
theorem CharSet.contains_beyond_iff {set : CharSet} (isOpaque : set.isOpaque = true) {c : Char}
    (beyond : isAscii c = false) :
    set.contains c = true ↔ ∃ range ∈ set.ranges, lastCode ≤ range.2 := by
  have low : 128 ≤ c.toNat := Nat.le_of_not_lt (of_decide_eq_false beyond)
  have high : c.toNat ≤ lastCode := Scan.toNat_le_lastCode c
  rw [Scan.contains_iff]
  constructor
  · intro inside
    obtain ⟨range, member, held⟩ := inside
    have whole := List.all_eq_true.mp isOpaque range member
    simp only [Bool.or_eq_true, Bool.and_eq_true, decide_eq_true_eq] at whole
    exact ⟨range, member, by omega⟩
  · intro held
    obtain ⟨range, member, last⟩ := held
    have whole := List.all_eq_true.mp isOpaque range member
    simp only [Bool.or_eq_true, Bool.and_eq_true, decide_eq_true_eq] at whole
    exact ⟨range, member, by omega, by omega⟩

theorem CharSet.contains_image {set : CharSet} (isOpaque : set.isOpaque = true)
    (recoding : Recoding) (c : Char) : set.contains (recoding.image c) = set.contains c := by
  cases kind : isAscii c with
  | true => rw [recoding.ascii kind]
  | false =>
      apply Bool.eq_iff_iff.mpr
      rw [contains_beyond_iff isOpaque kind, contains_beyond_iff isOpaque (recoding.beyond kind)]

private theorem any_contains_image {set : CharSet} (isOpaque : set.isOpaque = true)
    (recoding : Recoding)
    (c : Option Char) : (c.map recoding.image).any set.contains = c.any set.contains := by
  cases c with
  | none => rfl
  | some c => exact CharSet.contains_image isOpaque recoding c

private theorem any_isWordChar_image (recoding : Recoding) (c : Option Char) :
    (c.map recoding.image).any isWordChar = c.any isWordChar :=
  any_contains_image (by decide) recoding c

theorem map_image_eq_some_iff (recoding : Recoding) {d : Char} (ascii : isAscii d = true)
    (c : Option Char) : c.map recoding.image = some d ↔ c = some d := by
  rw [Option.map_eq_some_iff]
  simp [recoding.image_eq_iff ascii]

theorem Anchor.holds_image (recoding : Recoding) (before after : Option Char) (anchor : Anchor) :
    anchor.holds (before.map recoding.image) (after.map recoding.image) =
      anchor.holds before after := by
  have feed := map_image_eq_some_iff recoding (by decide : isAscii '\n' = true)
  have ret := map_image_eq_some_iff recoding (by decide : isAscii '\r' = true)
  cases anchor <;>
    simp only [holds, Option.isNone_map, any_isWordChar_image, feed, ret, bne, beq_eq_decide]

/-! The sweep -/

def Place.recode (recoding : Recoding) (place : Place) : Place where
  offset := place.offset
  before := place.before.map recoding.image
  after := place.after.map recoding.image

namespace Pattern

/-- All sets of the pattern are opaque. -/
def isOpaque : Pattern → Bool
  | .empty => true
  | .one set => set.isOpaque
  | .look _ => true
  | .seq first second => first.isOpaque && second.isOpaque
  | .alt first second => first.isOpaque && second.isOpaque
  | .star _ inner => inner.isOpaque
  | .plus _ inner => inner.isOpaque
  | .name inner => inner.isOpaque

variable {pattern : Pattern} (recoding : Recoding)

private theorem walk_recode (isOpaque : pattern.isOpaque = true) (place : Place) :
    walk (place.recode recoding) pattern = walk place pattern := by
  induction pattern with
  | empty => rfl
  | one set =>
      funext memory spot next
      rw [walk, walk, Place.recode, any_contains_image isOpaque]
  | look anchor =>
      funext memory spot next
      rw [walk, walk, Place.recode, Anchor.holds_image]
  | seq first second firstIH secondIH =>
      obtain ⟨firstOpaque, secondOpaque⟩ := Bool.and_eq_true_iff.mp isOpaque
      funext memory spot next
      obtain ⟨firstMemory, secondMemory⟩ := memory
      rw [walk, walk, firstIH firstOpaque, secondIH secondOpaque]
  | alt first second firstIH secondIH =>
      obtain ⟨firstOpaque, secondOpaque⟩ := Bool.and_eq_true_iff.mp isOpaque
      funext memory spot next
      obtain ⟨firstMemory, secondMemory⟩ := memory
      rw [walk, walk, firstIH firstOpaque, secondIH secondOpaque]
  | star greedy inner ih =>
      funext memory spot next
      rw [walk, walk, ih isOpaque]
  | plus greedy inner ih =>
      funext memory spot next
      rw [walk, walk, ih isOpaque]
  | name inner ih =>
      funext memory spot next
      rw [walk, walk, ih isOpaque]
      rfl

private theorem remember_recode (isOpaque : pattern.isOpaque = true) (place : Place) :
    remember (place.recode recoding) pattern = remember place pattern := by
  induction pattern with
  | empty | one | look => rfl
  | seq first second firstIH secondIH =>
      obtain ⟨firstOpaque, secondOpaque⟩ := Bool.and_eq_true_iff.mp isOpaque
      funext memory spot next
      obtain ⟨firstMemory, secondMemory⟩ := memory
      rw [remember, remember, firstIH firstOpaque, secondIH secondOpaque,
        walk_recode recoding secondOpaque]
  | alt first second firstIH secondIH =>
      obtain ⟨firstOpaque, secondOpaque⟩ := Bool.and_eq_true_iff.mp isOpaque
      funext memory spot next
      obtain ⟨firstMemory, secondMemory⟩ := memory
      rw [remember, remember, firstIH firstOpaque, secondIH secondOpaque]
  | star greedy inner ih =>
      have walks : walk (place.recode recoding) (.star greedy inner) =
          walk place (.star greedy inner) := walk_recode recoding isOpaque place
      funext memory spot next
      rw [remember, remember, ih isOpaque, walks]
  | plus greedy inner ih =>
      have innerOpaque : inner.isOpaque = true := isOpaque
      funext memory spot next
      rw [remember, remember, ih isOpaque, walk_recode recoding innerOpaque]
  | name inner ih =>
      funext memory spot next
      rw [remember, remember, ih isOpaque]
      rfl

private theorem visit_recode (isOpaque : pattern.isOpaque = true) (place : Place) :
    visit (place.recode recoding) pattern = visit place pattern := by
  induction pattern with
  | empty => rfl
  | one set =>
      funext memory next
      rw [visit, visit, Place.recode, any_contains_image isOpaque]
  | look anchor =>
      funext memory next
      rw [visit, visit, Place.recode, Anchor.holds_image]
  | seq first second firstIH secondIH =>
      obtain ⟨firstOpaque, secondOpaque⟩ := Bool.and_eq_true_iff.mp isOpaque
      funext memory next
      obtain ⟨firstMemory, secondMemory⟩ := memory
      rw [visit, visit, firstIH firstOpaque, secondIH secondOpaque]
  | alt first second firstIH secondIH =>
      obtain ⟨firstOpaque, secondOpaque⟩ := Bool.and_eq_true_iff.mp isOpaque
      funext memory next
      obtain ⟨firstMemory, secondMemory⟩ := memory
      rw [visit, visit, firstIH firstOpaque, secondIH secondOpaque]
  | star greedy inner ih =>
      funext memory next
      rw [visit, visit, ih isOpaque]
  | plus greedy inner ih =>
      have walks : walk (place.recode recoding) (.plus greedy inner) =
          walk place (.plus greedy inner) := walk_recode recoding isOpaque place
      have remembers : remember (place.recode recoding) (.plus greedy inner) =
          remember place (.plus greedy inner) := remember_recode recoding isOpaque place
      funext memory next
      rw [visit, visit, walks, remembers, ih isOpaque]
  | name inner ih =>
      funext memory next
      rw [visit, visit, ih isOpaque]
      rfl

private theorem places_onText (text : List Char) :
    places (recoding.onText text) = (places text).map (Place.recode recoding) := by
  have befores : none :: (recoding.onText text).map some =
      (none :: text.map some).map (Option.map recoding.image) := by
    simp [Recoding.onText]
  have afters : (recoding.onText text).map some ++ [none] =
      (text.map some ++ [none]).map (Option.map recoding.image) := by
    simp [Recoding.onText]
  rw [places, places, befores, afters, List.zip_map, List.zipIdx_map, List.map_map, List.map_map]
  rfl

theorem candidates_onText (isOpaque : pattern.isOpaque = true) (text : List Char) :
    pattern.candidates (recoding.onText text) = pattern.candidates text := by
  have steps : ∀ place sweep, Sweep.step pattern (place.recode recoding) sweep =
      Sweep.step pattern place sweep := by
    intro place sweep
    rw [Sweep.step, Sweep.step, visit_recode recoding isOpaque]
    rfl
  rw [candidates, candidates, places_onText, List.foldr_map]
  simp only [steps]

theorem occurrences_onText (isOpaque : pattern.isOpaque = true) (text : List Char) :
    pattern.occurrences (recoding.onText text) = pattern.occurrences text := by
  rw [occurrences, occurrences, candidates_onText recoding isOpaque]

private theorem slice_onText (text : List Char) (start stop : Nat) :
    slice (recoding.onText text) start stop = recoding.onText (slice text start stop) := by
  rw [slice, slice, Recoding.onText, Recoding.onText, List.map_take, List.map_drop]

/-- The names of an opaque pattern are recoded with the text. -/
theorem names_onText (isOpaque : pattern.isOpaque = true) (text : List Char) :
    pattern.names (recoding.onText text) = (pattern.names text).map recoding.onText := by
  rw [names, names, occurrences_onText recoding isOpaque, List.map_filterMap]
  simp only [slice_onText, Option.map_map]
  rfl

end Pattern

end SnippetAudit
