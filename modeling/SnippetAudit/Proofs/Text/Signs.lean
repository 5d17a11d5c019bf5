import SnippetAudit.Proofs.Text.Letters
import SnippetAudit.Proofs.Text.Packing

/-!
Keywords with a sign in common.

A sign is a character that is no letter, so its case does not matter. Keywords that contain the same
sign and differ around it occur at different ones of these signs. So all their occurrences together
are no more than the signs.
-/

set_option autoImplicit false

namespace SnippetAudit.Text

/-! Single characters -/

theorem countOccurrences_singleton (c : Char) (text : List Char) :
    countOccurrences [c] text = text.count c := by
  rw [countOccurrences_eq_countFrom (List.cons_ne_nil c [])]
  induction text with
  | nil => rfl
  | cons d text ih =>
      rw [countFrom, List.count_cons, ← ih]
      by_cases same : d = c
      · subst same
        simp only [List.isPrefixOf, beq_self_eq_true, Bool.and_self, if_true, List.length_singleton,
          Nat.sub_self]
        exact countFrom_add (0 + 1) 0 text
      · have differs : c ≠ d := Ne.symm same
        simp [List.isPrefixOf, same, differs]

theorem count_asciiLower {sign : Char} (noLetter : sign.isAlpha = false) (text : List Char) :
    (asciiLower text).count sign = text.count sign := by
  rw [asciiLower, List.count_eq_countP, List.countP_map, List.count_eq_countP]
  apply List.countP_congr
  intro c _
  simp only [Function.comp_apply, beq_iff_eq]
  exact toLower_eq_iff noLetter

/-- A keyword that is a sign is counted as a character. -/
theorem countOccurrences_sign {sign : Char} (noLetter : sign.isAlpha = false) (text : List Char) :
    countOccurrences (asciiLower [sign]) (asciiLower text) = text.count sign := by
  have kept : asciiLower [sign] = [sign] :=
    congrArg (fun c => [c]) ((toLower_eq_iff noLetter).mpr rfl)
  rw [kept, countOccurrences_singleton, count_asciiLower noLetter]

/-! Places -/

/-- All places where the keyword occurs, whatever the case of ASCII letters. -/
def placesOf (keyword text : List Char) : Finset Nat :=
  (Finset.range text.length).filter (OccursAt keyword text)

theorem countOccurrences_le_card_placesOf {keyword : List Char} (nonempty : keyword ≠ [])
    (text : List Char) :
    countOccurrences (asciiLower keyword) (asciiLower text) ≤ (placesOf keyword text).card := by
  obtain ⟨places, apart, card⟩ := (isGreatest_countOccurrences_asciiLower nonempty text).1
  rw [← card]
  refine Finset.card_le_card fun place member => Finset.mem_filter.mpr ⟨?_, apart.occurs _ member⟩
  have starts := apart.occurs place member
  rw [occursAt_eq nonempty] at starts
  have inside := starts.le_length (by simpa [asciiLower] using nonempty)
  have positive := List.length_pos_iff.mpr nonempty
  rw [length_asciiLower, length_asciiLower] at inside
  exact Finset.mem_range.mpr (by omega)

theorem StartsAt.getElem?_eq {keyword text : List Char} {place index : Nat}
    (starts : StartsAt keyword text place) (inside : index < keyword.length) :
    text[place + index]? = keyword[index]? := by
  obtain ⟨rest, split⟩ := starts
  rw [← List.getElem?_drop, ← split, List.getElem?_append_left inside]

private theorem startsAt_singleton {c : Char} {text : List Char} {place : Nat}
    (stands : text[place]? = some c) : StartsAt [c] text place := by
  obtain ⟨inside, rfl⟩ := List.getElem?_eq_some_iff.mp stands
  rw [StartsAt, List.drop_eq_getElem_cons inside]
  exact List.cons_prefix_cons.mpr ⟨rfl, List.nil_prefix⟩

/-! Keywords around a sign -/

/-- Two keywords, each with a place in it, differ somewhere if they are laid over each other so that
the places meet. -/
def Clash (first second : List Char × Nat) : Prop :=
  ∃ index < first.1.length, ∃ other < second.1.length,
    index + second.2 = other + first.2 ∧ first.1[index]? ≠ second.1[other]?

instance : DecidableRel Clash := fun first second =>
  inferInstanceAs (Decidable (∃ index < first.1.length, ∃ other < second.1.length,
    index + second.2 = other + first.2 ∧ first.1[index]? ≠ second.1[other]?))

theorem Clash.ne {first second : List Char × Nat} (clash : Clash first second) {text : List Char}
    {place other : Nat} (starts : StartsAt first.1 text place)
    (otherStarts : StartsAt second.1 text other) : place + first.2 ≠ other + second.2 := by
  obtain ⟨index, inside, otherIndex, otherInside, aligned, differ⟩ := clash
  intro met
  have same : place + index = other + otherIndex := by omega
  apply differ
  rw [← starts.getElem?_eq inside, ← otherStarts.getElem?_eq otherInside, same]

/-- The occurrences of all keywords are at different places of the sign. -/
theorem exists_spots {anchored : List (List Char × Nat)}
    (nonempty : ∀ entry ∈ anchored, entry.1 ≠ []) (clash : anchored.Pairwise Clash)
    (text : List Char) :
    ∃ spots : Finset Nat,
      spots.card = (anchored.map fun entry => countOccurrences entry.1 text).sum ∧
      ∀ spot ∈ spots, ∃ entry ∈ anchored, ∃ place, StartsAt entry.1 text place ∧
        place + entry.2 = spot := by
  induction anchored with
  | nil => exact ⟨∅, rfl, fun spot member => absurd member (Finset.notMem_empty spot)⟩
  | cons entry anchored ih =>
      obtain ⟨clashes, others⟩ := List.pairwise_cons.mp clash
      obtain ⟨headNonempty, tailNonempty⟩ := List.forall_mem_cons.mp nonempty
      obtain ⟨spots, card, each⟩ := ih tailNonempty others
      obtain ⟨places, apart, count⟩ := (isGreatest_countOccurrences headNonempty text).1
      refine ⟨places.map (addRightEmbedding entry.2) ∪ spots, ?_, ?_⟩
      · rw [List.map_cons, List.sum_cons, ← card, ← count, Finset.card_union_of_disjoint,
          Finset.card_map]
        refine Finset.disjoint_left.mpr fun spot here there => ?_
        obtain ⟨place, member, rfl⟩ := Finset.mem_map.mp here
        obtain ⟨other, inside, otherPlace, starts, met⟩ := each _ there
        exact (clashes other inside).ne (apart.occurs place member) starts met.symm
      · intro spot member
        rcases Finset.mem_union.mp member with here | there
        · obtain ⟨place, inside, rfl⟩ := Finset.mem_map.mp here
          exact ⟨entry, List.mem_cons_self, place, apart.occurs place inside, rfl⟩
        · obtain ⟨other, inside, found⟩ := each spot there
          exact ⟨other, List.mem_cons_of_mem entry inside, found⟩

/-- Keywords that contain a sign and clash around it do not occur more often than the sign. -/
theorem sum_countOccurrences_le_count {c : Char} {anchored : List (List Char × Nat)}
    (holds : ∀ entry ∈ anchored, entry.1[entry.2]? = some c) (clash : anchored.Pairwise Clash)
    (text : List Char) :
    (anchored.map fun entry => countOccurrences entry.1 text).sum ≤ text.count c := by
  have nonempty : ∀ entry ∈ anchored, entry.1 ≠ [] := by
    intro entry member empty
    have stands := holds entry member
    rw [empty] at stands
    cases stands
  obtain ⟨spots, card, each⟩ := exists_spots nonempty clash text
  rw [← card, ← countOccurrences_singleton]
  refine (isGreatest_countOccurrences (List.cons_ne_nil c []) text).2 ⟨spots, ⟨?_, ?_⟩, rfl⟩
  · intro spot member
    obtain ⟨entry, inside, place, starts, rfl⟩ := each spot member
    have stands := holds entry inside
    obtain ⟨within, _⟩ := List.getElem?_eq_some_iff.mp stands
    exact startsAt_singleton ((starts.getElem?_eq within).trans stands)
  · intro spot _ other _ before
    exact before

end SnippetAudit.Text
