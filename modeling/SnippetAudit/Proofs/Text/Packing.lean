import Mathlib.Algebra.Group.Embedding
import Mathlib.Algebra.Order.Ring.Nat
import Mathlib.Data.Finset.Max
import SnippetAudit.Text.Blank
import SnippetAudit.Text.Occurrences

/-!
Occurrences that do not overlap.

Occurrences are given by the places where they start. Counting from the left takes each one that
does not overlap the one taken before. No choice of places without overlap has more: the occurrence
that is taken first ends first, so giving up the first place of another choice makes room for it.
-/

set_option autoImplicit false

namespace SnippetAudit.Text

/-- A piece of the text that differs from the keyword in the case of ASCII letters only starts at
the place. -/
def OccursAt (keyword text : List Char) (place : Nat) : Prop :=
  ∃ before piece after, text = before ++ (piece ++ after) ∧ before.length = place ∧
    asciiLower piece = asciiLower keyword

/-- Something of the given length occurs at each of the places, and no two of them overlap. -/
structure Apart (length : Nat) (occurs : Nat → Prop) (places : Finset Nat) : Prop where
  occurs : ∀ place ∈ places, occurs place
  apart : ∀ place ∈ places, ∀ other ∈ places, place < other → place + length ≤ other

/-- How many places there are in a choice without overlap. -/
def apartCounts (length : Nat) (occurs : Nat → Prop) : Set Nat :=
  {count | ∃ places, Apart length occurs places ∧ places.card = count}

/-- The keyword itself starts at the place. -/
def StartsAt (keyword text : List Char) (place : Nat) : Prop :=
  keyword <+: text.drop place

/-! Choices of places -/

section Places

variable {length : Nat} {occurs : Nat → Prop} {places others : Finset Nat}

private theorem apart_empty : Apart length occurs ∅ where
  occurs place member := absurd member (Finset.notMem_empty place)
  apart place member := absurd member (Finset.notMem_empty place)

private theorem apart_singleton {place : Nat} (here : occurs place) :
    Apart length occurs {place} where
  occurs other member := by rwa [Finset.mem_singleton.mp member]
  apart first member second otherMember before := by
    rw [Finset.mem_singleton.mp member, Finset.mem_singleton.mp otherMember] at before
    exact absurd before (Nat.lt_irrefl place)

/-- Some of the places, where something else of the same length occurs as well. -/
theorem Apart.mono (apart : Apart length occurs places) (within : others ⊆ places)
    {new : Nat → Prop} (each : ∀ place ∈ others, occurs place → new place) :
    Apart length new others where
  occurs place member := each place member (apart.occurs place (within member))
  apart place member other otherMember :=
    apart.apart place (within member) other (within otherMember)

/-- Places that are all in front of the others. -/
theorem Apart.union (apart : Apart length occurs places) (otherApart : Apart length occurs others)
    (inFront : ∀ place ∈ places, ∀ other ∈ others, place + length ≤ other) :
    Apart length occurs (places ∪ others) where
  occurs place member := by
    rcases Finset.mem_union.mp member with first | second
    · exact apart.occurs place first
    · exact otherApart.occurs place second
  apart place member other otherMember before := by
    rcases Finset.mem_union.mp member with first | second
    · rcases Finset.mem_union.mp otherMember with otherFirst | otherSecond
      · exact apart.apart place first other otherFirst before
      · exact inFront place first other otherSecond
    · rcases Finset.mem_union.mp otherMember with otherFirst | otherSecond
      · have gap := inFront other otherFirst place second
        omega
      · exact otherApart.apart place second other otherSecond before

private theorem card_union_of_inFront (positive : 0 < length)
    (inFront : ∀ place ∈ places, ∀ other ∈ others, place + length ≤ other) :
    (places ∪ others).card = places.card + others.card := by
  refine Finset.card_union_of_disjoint (Finset.disjoint_left.mpr fun place first second => ?_)
  have gap := inFront place first place second
  omega

theorem Apart.shift (offset : Nat)
    (apart : Apart length (fun place => occurs (offset + place)) places) :
    Apart length occurs (places.map (addLeftEmbedding offset)) where
  occurs place member := by
    obtain ⟨source, inside, rfl⟩ := Finset.mem_map.mp member
    exact apart.occurs source inside
  apart place member other otherMember before := by
    obtain ⟨source, inside, rfl⟩ := Finset.mem_map.mp member
    obtain ⟨target, otherInside, rfl⟩ := Finset.mem_map.mp otherMember
    rw [addLeftEmbedding_apply, addLeftEmbedding_apply] at before ⊢
    have gap := apart.apart source inside target otherInside (by omega)
    omega

theorem Apart.exists_unshifted (apart : Apart length occurs places) {offset : Nat}
    (behind : ∀ place ∈ places, offset ≤ place) :
    ∃ sources, Apart length (fun place => occurs (offset + place)) sources ∧
      sources.card = places.card := by
  refine ⟨places.image (· - offset), ⟨?_, ?_⟩, Finset.card_image_of_injOn ?_⟩
  · intro source member
    obtain ⟨place, inside, rfl⟩ := Finset.mem_image.mp member
    have same : offset + (place - offset) = place := Nat.add_sub_cancel' (behind place inside)
    change occurs (offset + (place - offset))
    rw [same]
    exact apart.occurs place inside
  · intro source member target otherMember before
    obtain ⟨place, inside, rfl⟩ := Finset.mem_image.mp member
    obtain ⟨other, otherInside, rfl⟩ := Finset.mem_image.mp otherMember
    have start := behind place inside
    have gap := apart.apart place inside other otherInside (by omega)
    omega
  · intro place inside other otherInside same
    have first := behind place inside
    have second := behind other otherInside
    change place - offset = other - offset at same
    omega

/-- Only one of the places can be in front of a cut and reach over it. -/
theorem Apart.card_le_one (apart : Apart length occurs places) {cut : Nat}
    (reaches : ∀ place ∈ places, place < cut ∧ cut < place + length) : places.card ≤ 1 := by
  refine Finset.card_le_one.mpr fun place member other otherMember => ?_
  have first := reaches place member
  have second := reaches other otherMember
  rcases Nat.lt_trichotomy place other with before | same | behind
  · have gap := apart.apart place member other otherMember before
    omega
  · exact same
  · have gap := apart.apart other otherMember place member behind
    omega

end Places

/-! Lower case -/

theorem asciiLower_append (text other : List Char) :
    asciiLower (text ++ other) = asciiLower text ++ asciiLower other :=
  List.map_append

theorem length_asciiLower (text : List Char) : (asciiLower text).length = text.length :=
  List.length_map _

private theorem asciiLower_drop (text : List Char) (place : Nat) :
    asciiLower (text.drop place) = (asciiLower text).drop place :=
  List.map_drop

variable {keyword : List Char}

theorem StartsAt.le_length {text : List Char} {place : Nat} (starts : StartsAt keyword text place)
    (nonempty : keyword ≠ []) : place + keyword.length ≤ text.length := by
  have fits := starts.length_le
  have positive := List.length_pos_iff.mpr nonempty
  rw [List.length_drop] at fits
  omega

/-- An occurrence whatever the case is an occurrence in lower case. -/
theorem occursAt_iff {text : List Char} {place : Nat} :
    OccursAt keyword text place ↔
      place ≤ text.length ∧ StartsAt (asciiLower keyword) (asciiLower text) place := by
  constructor
  · intro occurs
    obtain ⟨before, piece, after, rfl, rfl, same⟩ := occurs
    refine ⟨by simp, ?_⟩
    rw [StartsAt, ← asciiLower_drop, List.drop_left, asciiLower_append, same]
    exact List.prefix_append _ _
  · intro starts
    obtain ⟨inside, rest, split⟩ := starts
    rw [← asciiLower_drop, asciiLower, asciiLower] at split
    obtain ⟨piece, after, cut, same, _⟩ := List.map_eq_append_iff.mp split.symm
    refine ⟨text.take place, piece, after, ?_, List.length_take_of_le inside, same⟩
    rw [← cut, List.take_append_drop]

instance (keyword text : List Char) : DecidablePred (OccursAt keyword text) := fun place =>
  decidable_of_iff (place ≤ text.length ∧ asciiLower keyword <+: (asciiLower text).drop place)
    occursAt_iff.symm

theorem occursAt_eq (nonempty : keyword ≠ []) (text : List Char) :
    OccursAt keyword text = StartsAt (asciiLower keyword) (asciiLower text) := by
  funext place
  refine propext (occursAt_iff.trans (and_iff_right_of_imp fun starts => ?_))
  have inside := starts.le_length (by simpa [asciiLower] using nonempty)
  rw [length_asciiLower, length_asciiLower] at inside
  omega

/-! Counting from the left -/

theorem countFrom_add (found skip : Nat) (text : List Char) :
    countFrom keyword found skip text = countFrom keyword 0 skip text + found := by
  induction text generalizing found skip with
  | nil => exact (Nat.zero_add found).symm
  | cons c text ih =>
      cases skip with
      | succ skip => exact ih found skip
      | zero =>
          rw [countFrom, countFrom]
          split
          · rw [ih (found + 1), ih (0 + 1)]
            omega
          · exact ih found 0

private theorem startsAt_length {left right : List Char} :
    StartsAt keyword (left ++ right) left.length ↔ keyword.isPrefixOf right = true := by
  rw [StartsAt, List.drop_left, List.isPrefixOf_iff_prefix]

/-- No choice of places without overlap has more than are counted. -/
theorem Apart.card_le_countFrom (nonempty : keyword ≠ []) (left right : List Char) (skip : Nat)
    {places : Finset Nat}
    (apart : Apart keyword.length (StartsAt keyword (left ++ right)) places)
    (behind : ∀ place ∈ places, left.length + skip ≤ place) :
    places.card ≤ countFrom keyword 0 skip right := by
  have positive := List.length_pos_iff.mpr nonempty
  induction right generalizing left skip places with
  | nil =>
      have empty : places = ∅ := by
        refine Finset.eq_empty_of_forall_notMem fun place member => ?_
        have inside := (apart.occurs place member).le_length nonempty
        have after := behind place member
        rw [List.append_nil] at inside
        omega
      rw [empty, Finset.card_empty]
      exact Nat.zero_le _
  | cons c right ih =>
      have next : left ++ c :: right = left ++ [c] ++ right := List.append_cons ..
      have length : (left ++ [c]).length = left.length + 1 := List.length_append
      rw [next] at apart
      cases skip with
      | succ skip =>
          refine ih (left ++ [c]) skip apart fun place member => ?_
          have after := behind place member
          omega
      | zero =>
          rw [countFrom]
          split
          · rw [countFrom_add]
            rcases places.eq_empty_or_nonempty with rfl | inhabited
            · exact Nat.zero_le _
            · -- all places but the first are behind the occurrence that is counted here
              have least := places.min'_mem inhabited
              have others := apart.mono (places.erase_subset (places.min' inhabited))
                fun _ _ starts => starts
              have fewer := ih (left ++ [c]) (keyword.length - 1) others fun place member => by
                obtain ⟨differs, inside⟩ := Finset.mem_erase.mp member
                have first := places.min'_le place inside
                have gap := apart.apart _ least place inside (by omega)
                have after := behind _ least
                omega
              rw [Finset.card_erase_of_mem least] at fewer
              omega
          · next misses =>
              refine ih (left ++ [c]) 0 apart fun place member => ?_
              have after := behind place member
              have differs : place ≠ left.length := by
                rintro rfl
                have starts := apart.occurs _ member
                rw [← next, startsAt_length] at starts
                exact misses starts
              omega

/-- What is counted are places without overlap. -/
theorem exists_apart_countFrom (nonempty : keyword ≠ []) (left right : List Char) (skip : Nat) :
    ∃ places, Apart keyword.length (StartsAt keyword (left ++ right)) places ∧
      (∀ place ∈ places, left.length + skip ≤ place) ∧
      places.card = countFrom keyword 0 skip right := by
  have positive := List.length_pos_iff.mpr nonempty
  induction right generalizing left skip with
  | nil => exact ⟨∅, apart_empty, by simp, by rw [Finset.card_empty, countFrom]⟩
  | cons c right ih =>
      have next : left ++ [c] ++ right = left ++ c :: right := (List.append_cons ..).symm
      have length : (left ++ [c]).length = left.length + 1 := List.length_append
      cases skip with
      | succ skip =>
          obtain ⟨places, apart, behind, card⟩ := ih (left ++ [c]) skip
          rw [next] at apart
          refine ⟨places, apart, fun place member => ?_, card⟩
          have after := behind place member
          omega
      | zero =>
          rw [countFrom]
          split
          · next starts =>
              obtain ⟨places, apart, behind, card⟩ := ih (left ++ [c]) (keyword.length - 1)
              rw [next] at apart
              have inFront : ∀ place ∈ ({left.length} : Finset Nat), ∀ other ∈ places,
                  place + keyword.length ≤ other := by
                intro place here other member
                have after := behind other member
                rw [Finset.mem_singleton.mp here]
                omega
              have here : Apart keyword.length (StartsAt keyword (left ++ c :: right))
                  {left.length} := apart_singleton (startsAt_length.mpr starts)
              refine ⟨_, here.union apart inFront, fun place member => ?_, ?_⟩
              · rcases Finset.mem_union.mp member with first | later
                · exact (Finset.mem_singleton.mp first).ge
                · have after := behind place later
                  omega
              · rw [card_union_of_inFront positive inFront, card, Finset.card_singleton,
                  countFrom_add (0 + 1)]
                omega
          · obtain ⟨places, apart, behind, card⟩ := ih (left ++ [c]) 0
            rw [next] at apart
            refine ⟨places, apart, fun place member => ?_, card⟩
            have after := behind place member
            omega

theorem countOccurrences_eq_countFrom (nonempty : keyword ≠ []) (text : List Char) :
    countOccurrences keyword text = countFrom keyword 0 0 text := by
  have isSome : keyword.isEmpty = false := by
    rw [List.isEmpty_eq_false_iff]
    exact nonempty
  rw [countOccurrences, isSome]
  rfl

/-- Counting from the left gives the greatest number of occurrences without overlap. -/
theorem isGreatest_countOccurrences (nonempty : keyword ≠ []) (text : List Char) :
    IsGreatest (apartCounts keyword.length (StartsAt keyword text))
      (countOccurrences keyword text) := by
  rw [countOccurrences_eq_countFrom nonempty]
  constructor
  · obtain ⟨places, apart, _, card⟩ := exists_apart_countFrom nonempty [] text 0
    exact ⟨places, apart, card⟩
  · intro count chosen
    obtain ⟨places, apart, rfl⟩ := chosen
    exact Apart.card_le_countFrom nonempty [] text 0 apart fun place _ => by simp

/-- The same whatever the case of ASCII letters. -/
theorem isGreatest_countOccurrences_asciiLower (nonempty : keyword ≠ []) (text : List Char) :
    IsGreatest (apartCounts keyword.length (OccursAt keyword text))
      (countOccurrences (asciiLower keyword) (asciiLower text)) := by
  have lowered : asciiLower keyword ≠ [] := by simpa [asciiLower] using nonempty
  have greatest := isGreatest_countOccurrences lowered (asciiLower text)
  rwa [length_asciiLower, ← occursAt_eq nonempty] at greatest

/-! Texts that are joined -/

theorem StartsAt.append_right {text : List Char} {place : Nat}
    (starts : StartsAt keyword text place) (nonempty : keyword ≠ []) (other : List Char) :
    StartsAt keyword (text ++ other) place := by
  have inside := starts.le_length nonempty
  rw [StartsAt, List.drop_append_of_le_length (by omega)]
  exact starts.trans (List.prefix_append _ _)

private theorem startsAt_append_left {text other : List Char} {place : Nat} :
    StartsAt keyword (text ++ other) (text.length + place) ↔ StartsAt keyword other place := by
  rw [StartsAt, StartsAt, List.drop_append, List.drop_eq_nil_of_le (by omega), List.nil_append,
    Nat.add_sub_cancel_left]

theorem StartsAt.of_append {text other : List Char} {place : Nat}
    (starts : StartsAt keyword (text ++ other) place)
    (inside : place + keyword.length ≤ text.length) : StartsAt keyword text place := by
  rw [StartsAt, List.drop_append_of_le_length (by omega)] at starts
  refine List.prefix_of_prefix_length_le starts (List.prefix_append _ _) ?_
  rw [List.length_drop]
  omega

/-- The occurrences in two texts are found again when they are joined. -/
theorem add_le_countOccurrences_append (nonempty : keyword ≠ []) (text other : List Char) :
    countOccurrences keyword text + countOccurrences keyword other ≤
      countOccurrences keyword (text ++ other) := by
  have positive := List.length_pos_iff.mpr nonempty
  obtain ⟨places, apart, card⟩ := (isGreatest_countOccurrences nonempty text).1
  obtain ⟨others, otherApart, otherCard⟩ := (isGreatest_countOccurrences nonempty other).1
  have inFront : ∀ place ∈ places, ∀ later ∈ others.map (addLeftEmbedding text.length),
      place + keyword.length ≤ later := by
    intro place member later otherMember
    obtain ⟨source, _, rfl⟩ := Finset.mem_map.mp otherMember
    have inside := (apart.occurs place member).le_length nonempty
    rw [addLeftEmbedding_apply]
    omega
  have first : Apart keyword.length (StartsAt keyword (text ++ other)) places :=
    apart.mono (Finset.Subset.refl places) fun _ _ starts => starts.append_right nonempty other
  have second : Apart keyword.length (StartsAt keyword (text ++ other))
      (others.map (addLeftEmbedding text.length)) :=
    .shift text.length (otherApart.mono (Finset.Subset.refl others)
      fun _ _ starts => startsAt_append_left.mpr starts)
  have most := (isGreatest_countOccurrences nonempty (text ++ other)).2
    ⟨_, first.union second inFront, rfl⟩
  rwa [card_union_of_inFront positive inFront, Finset.card_map, card, otherCard] at most

/-- Where two texts are joined, at most one occurrence is new. -/
theorem countOccurrences_append_le (nonempty : keyword ≠ []) (text other : List Char) :
    countOccurrences keyword (text ++ other) ≤
      countOccurrences keyword text + countOccurrences keyword other + 1 := by
  obtain ⟨places, apart, card⟩ := (isGreatest_countOccurrences nonempty (text ++ other)).1
  -- the places of the first text, those of the second, and those that reach over the joint
  let inside := places.filter fun place => place + keyword.length ≤ text.length
  let behind := places.filter fun place => text.length ≤ place
  let across := places.filter fun place =>
    place < text.length ∧ text.length < place + keyword.length
  have insideCard : inside.card ≤ countOccurrences keyword text := by
    have kept : Apart keyword.length (StartsAt keyword text) inside :=
      apart.mono (Finset.filter_subset _ _) fun place member starts =>
        starts.of_append (Finset.mem_filter.mp member).2
    exact (isGreatest_countOccurrences nonempty text).2 ⟨_, kept, rfl⟩
  have behindCard : behind.card ≤ countOccurrences keyword other := by
    have kept : Apart keyword.length (StartsAt keyword (text ++ other)) behind :=
      apart.mono (Finset.filter_subset _ _) fun _ _ starts => starts
    obtain ⟨sources, moved, same⟩ :=
      kept.exists_unshifted fun place member => (Finset.mem_filter.mp member).2
    rw [← same]
    exact (isGreatest_countOccurrences nonempty other).2 ⟨sources,
      moved.mono (Finset.Subset.refl _) fun _ _ starts => startsAt_append_left.mp starts, rfl⟩
  have acrossCard : across.card ≤ 1 :=
    (apart.mono (Finset.filter_subset _ _) fun _ _ starts => starts).card_le_one
      fun place member => (Finset.mem_filter.mp member).2
  have cover : places ⊆ inside ∪ (behind ∪ across) := by
    intro place member
    simp only [inside, behind, across, Finset.mem_union, Finset.mem_filter, member, true_and]
    omega
  have total := Finset.card_le_card cover
  have firstUnion := Finset.card_union_le inside (behind ∪ across)
  have secondUnion := Finset.card_union_le behind across
  omega

end SnippetAudit.Text
