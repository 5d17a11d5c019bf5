import SnippetAudit.Proofs.Pattern.Traces

/-!
Names of matches: each one is a piece of the text that a marked part of the pattern matches.
-/

set_option autoImplicit false

namespace SnippetAudit.Pattern

/-- The parts of a pattern that are marked as names. -/
def marked : Pattern → List Pattern
  | .empty => []
  | .one _ => []
  | .look _ => []
  | .seq first second => first.marked ++ second.marked
  | .alt first second => first.marked ++ second.marked
  | .star _ inner => inner.marked
  | .plus _ inner => inner.marked
  | .name inner => [inner]

/-- A mark is absent or spans a piece of the text that one of the parts matches. -/
inductive Marks (parts : List Pattern) (text : List Char) : NameMark → Prop where
  | absent : Marks parts text .absent
  | spanning {part : Pattern} {left piece right : List Char} :
      part ∈ parts → text = left ++ (piece ++ right) → Spans part left piece right →
      Marks parts text (.spanning left.length (left ++ piece).length)

/-- Without a marked part the hit is passed on as it is. -/
theorem Traces.hit_eq {pattern : Pattern} {left piece right : List Char} {next hit : Hit}
    (traces : Traces pattern left piece right next hit) (unmarked : pattern.marked = []) :
    hit = next := by
  induction traces with
  | empty | one | look | done => rfl
  | seq _ _ firstIH secondIH =>
      obtain ⟨first, second⟩ := List.append_eq_nil_iff.mp unmarked
      exact (firstIH first).trans (secondIH second)
  | altFirst _ ih => exact ih (List.append_eq_nil_iff.mp unmarked).1
  | altSecond _ ih => exact ih (List.append_eq_nil_iff.mp unmarked).2
  | round _ _ innerIH restIH => exact (innerIH unmarked).trans (restIH unmarked)
  | plus _ _ innerIH restIH => exact (innerIH unmarked).trans (restIH unmarked)
  | name => cases unmarked

/-- A name is set where the match passes a marked part, and is not changed further in front. -/
theorem Traces.marks {pattern : Pattern} {left piece right : List Char} {next hit : Hit}
    (traces : Traces pattern left piece right next hit) {parts : List Pattern}
    (flat : ∀ part ∈ parts, part.marked = []) (within : pattern.marked ⊆ parts)
    {text : List Char} (split : text = left ++ (piece ++ right))
    (marks : Marks parts text next.mark) : Marks parts text hit.mark := by
  induction traces with
  | empty | one | look | done => exact marks
  | @seq _ _ left piece rest right _ _ _ _ _ firstIH secondIH =>
      obtain ⟨first, second⟩ := List.append_subset.mp within
      rw [List.append_assoc] at split
      exact firstIH first split (secondIH second (by rw [split, List.append_assoc]) marks)
  | altFirst _ ih => exact ih (List.append_subset.mp within).1 split marks
  | altSecond _ ih => exact ih (List.append_subset.mp within).2 split marks
  | round _ _ innerIH restIH =>
      rw [List.append_assoc] at split
      exact innerIH within split (restIH within (by rw [split, List.append_assoc]) marks)
  | plus _ _ innerIH restIH =>
      rw [List.append_assoc] at split
      exact innerIH within split (restIH within (by rw [split, List.append_assoc]) marks)
  | @name inner left piece right next hit traces _ =>
      have member : inner ∈ parts := within List.mem_cons_self
      rw [traces.hit_eq (flat inner member)]
      -- the first marked part that is passed, from behind, sets the mark; it is kept from then on
      obtain ⟨stop, mark⟩ := next
      cases marks with
      | absent => exact .spanning member split traces.spans
      | spanning inside cut spans => exact .spanning inside cut spans

private theorem keepApart_subset (kept : List Match) (found : Match) :
    keepApart kept found ⊆ found :: kept := by
  unfold keepApart
  split
  · exact List.Subset.refl _
  · split
    · exact List.Subset.refl _
    · exact List.subset_cons_self _ _

private theorem foldl_keepApart_subset (items kept : List Match) :
    items.foldl keepApart kept ⊆ items ++ kept := by
  induction items generalizing kept with
  | nil => exact List.Subset.refl kept
  | cons found items ih =>
      intro other member
      rcases List.mem_append.mp (ih _ member) with later | now
      · exact List.mem_append_left _ (List.mem_cons_of_mem _ later)
      · rcases List.mem_cons.mp (keepApart_subset _ _ now) with rfl | before
        · exact List.mem_append_left _ List.mem_cons_self
        · exact List.mem_append_right _ before

theorem occurrences_subset (pattern : Pattern) (text : List Char) :
    pattern.occurrences text ⊆ pattern.candidates text := by
  intro found member
  have inside := foldl_keepApart_subset _ _ (List.mem_reverse.mp member)
  rwa [List.append_nil] at inside

/-- A name is a piece of the text that a marked part of the pattern matches. -/
theorem spans_of_mem_names {pattern : Pattern} (rounds : pattern.roundsTake = true)
    (flat : ∀ part ∈ pattern.marked, part.marked = []) {text label : List Char}
    (member : label ∈ pattern.names text) :
    ∃ part ∈ pattern.marked, ∃ left right, text = left ++ (label ++ right) ∧
      Spans part left label right := by
  obtain ⟨found, occurs, named⟩ := List.mem_filterMap.mp member
  obtain ⟨left, right, hit, rfl, finds, rfl⟩ :=
    mem_candidates.mp (occurrences_subset pattern text occurs)
  obtain ⟨piece, rest, rfl, traces⟩ := traces_of_finds rounds finds
  have marks := traces.marks flat (List.Subset.refl _) rfl .absent
  obtain ⟨stop, mark⟩ := hit
  cases marks with
  | absent => cases named
  | @spanning part before name after inside split spans =>
      have cut : slice (left ++ (piece ++ rest)) before.length (before ++ name).length = name := by
        rw [split, List.length_append, slice_between]
      obtain rfl : name = label := cut.symm.trans (Option.some.inj named)
      exact ⟨part, inside, before, after, split, spans⟩

end SnippetAudit.Pattern
