import Mathlib.Data.List.Forall2
import SnippetAudit.Proofs.Text.Lines
import SnippetAudit.Text.Blank
import SnippetAudit.Text.Occurrences

/-!
Line endings: a text and the same text with carriage returns before its line feeds.

The relation leaves open which line feeds get a carriage return, so that both texts can be cut into
parts that are related again. What is said of lines and keywords here holds for any such choice.
-/

set_option autoImplicit false

namespace SnippetAudit.Text

/-- The text with a carriage return before every line feed. -/
def withReturns (text : List Char) : List Char :=
  text.flatMap fun c => if c = '\n' then ['\r', '\n'] else [c]

/-- The second text has a carriage return more before some line feeds of the first. -/
inductive AddsReturns : List Char → List Char → Prop where
  | nil : AddsReturns [] []
  | keep {c : Char} {text other : List Char} :
      AddsReturns text other → AddsReturns (c :: text) (c :: other)
  | insert {text other : List Char} :
      AddsReturns text other → AddsReturns ('\n' :: text) ('\r' :: '\n' :: other)

theorem addsReturns_withReturns (text : List Char) : AddsReturns text (withReturns text) := by
  induction text with
  | nil => exact .nil
  | cons c text ih =>
      rw [withReturns, List.flatMap_cons]
      split
      · next feed =>
          subst feed
          exact .insert ih
      · exact .keep ih

/-- A word that no line ending can touch. -/
def IsUnbroken (word : List Char) : Prop :=
  '\n' ∉ word ∧ '\r' ∉ word

instance : DecidablePred IsUnbroken := fun word =>
  inferInstanceAs (Decidable ('\n' ∉ word ∧ '\r' ∉ word))

theorem IsUnbroken.ne {word : List Char} (unbroken : IsUnbroken word) {c : Char}
    (member : c ∈ word) : c ≠ '\n' ∧ c ≠ '\r' :=
  ⟨fun feed => unbroken.1 (feed ▸ member), fun ret => unbroken.2 (ret ▸ member)⟩

namespace AddsReturns

variable {text other : List Char}

/-! Characters -/

theorem mem (added : AddsReturns text other) {c : Char} (member : c ∈ text) : c ∈ other := by
  induction added with
  | nil => exact member
  | keep _ ih =>
      cases member with
      | head => exact List.mem_cons_self
      | tail _ member => exact List.mem_cons_of_mem _ (ih member)
  | insert _ ih =>
      cases member with
      | head => exact List.mem_cons_of_mem _ List.mem_cons_self
      | tail _ member => exact List.mem_cons_of_mem _ (List.mem_cons_of_mem _ (ih member))

/-- Only a carriage return is new, and only where a line feed is. -/
theorem mem_or (added : AddsReturns text other) {c : Char} (member : c ∈ other) :
    c ∈ text ∨ c = '\r' ∧ '\n' ∈ text := by
  induction added with
  | nil => exact .inl member
  | keep _ ih =>
      cases member with
      | head => exact .inl List.mem_cons_self
      | tail _ member =>
          rcases ih member with old | ⟨new, feed⟩
          · exact .inl (List.mem_cons_of_mem _ old)
          · exact .inr ⟨new, List.mem_cons_of_mem _ feed⟩
  | insert _ ih =>
      rcases List.mem_cons.mp member with new | member
      · exact .inr ⟨new, List.mem_cons_self⟩
      · rcases List.mem_cons.mp member with rfl | member
        · exact .inl List.mem_cons_self
        · rcases ih member with old | ⟨new, _⟩
          · exact .inl (List.mem_cons_of_mem _ old)
          · exact .inr ⟨new, List.mem_cons_self⟩

theorem forall_mem (added : AddsReturns text other) {holds : Char → Prop}
    (same : holds '\n' → holds '\r') (all : ∀ c ∈ text, holds c) : ∀ c ∈ other, holds c := by
  intro c member
  rcases added.mem_or member with old | ⟨rfl, feed⟩
  · exact all c old
  · exact same (all _ feed)

theorem all_eq (added : AddsReturns text other) {holds : Char → Bool}
    (same : holds '\r' = holds '\n') : other.all holds = text.all holds := by
  apply Bool.eq_iff_iff.mpr
  rw [List.all_eq_true, List.all_eq_true]
  constructor
  · intro all c member
    exact all c (added.mem member)
  · exact added.forall_mem fun feed => same.trans feed

theorem nil_iff (added : AddsReturns text other) : other = [] ↔ text = [] := by
  cases added <;> simp

/-- Without a line feed in the first text nothing is added. -/
theorem eq_of_noFeed (added : AddsReturns text other) (noFeed : '\n' ∉ text) : other = text := by
  induction added with
  | nil => rfl
  | keep _ ih => rw [ih fun inside => noFeed (List.mem_cons_of_mem _ inside)]
  | insert _ _ => exact absurd List.mem_cons_self noFeed

private theorem eq_of_isUnbroken (added : AddsReturns text other) (unbroken : IsUnbroken other) :
    text = other :=
  (added.eq_of_noFeed fun inside => unbroken.1 (added.mem inside)).symm

theorem eq_word_iff (added : AddsReturns text other) {word : List Char}
    (unbroken : IsUnbroken word) : other = word ↔ text = word := by
  constructor
  · intro same
    rw [← same] at unbroken ⊢
    exact added.eq_of_isUnbroken unbroken
  · intro same
    rw [← same] at unbroken ⊢
    exact added.eq_of_noFeed unbroken.1

theorem map (added : AddsReturns text other) {change : Char → Char} (feed : change '\n' = '\n')
    (ret : change '\r' = '\r') : AddsReturns (text.map change) (other.map change) := by
  induction added with
  | nil => exact .nil
  | keep _ ih => exact .keep ih
  | insert _ ih =>
      rw [List.map_cons, List.map_cons, List.map_cons, feed, ret]
      exact .insert ih

/-! Parts -/

theorem split_left {before after : List Char} (added : AddsReturns (before ++ after) other) :
    ∃ before' after', other = before' ++ after' ∧ AddsReturns before before' ∧
      AddsReturns after after' := by
  induction before generalizing other with
  | nil => exact ⟨[], other, rfl, .nil, added⟩
  | cons c before ih =>
      cases added with
      | keep rest =>
          obtain ⟨before', after', rfl, first, second⟩ := ih rest
          exact ⟨c :: before', after', rfl, .keep first, second⟩
      | insert rest =>
          obtain ⟨before', after', rfl, first, second⟩ := ih rest
          exact ⟨'\r' :: '\n' :: before', after', rfl, .insert first, second⟩

/-- A cut of the second text may separate a new carriage return from its line feed. The line feed
then stays behind the cut, and the carriage return is dropped. -/
theorem split_right {before' after' : List Char} (added : AddsReturns text (before' ++ after')) :
    ∃ before after, text = before ++ after ∧ AddsReturns after after' ∧ before ⊆ before' ∧
      (AddsReturns before before' ∨ '\r' ∈ before' ∧ after'.head? = some '\n') := by
  generalize whole : before' ++ after' = joined at added
  induction added generalizing before' with
  | nil =>
      obtain ⟨rfl, rfl⟩ := List.append_eq_nil_iff.mp whole
      exact ⟨[], [], rfl, .nil, List.nil_subset _, .inl .nil⟩
  | @keep c text joined rest ih =>
      cases before' with
      | nil =>
          have cut : after' = c :: joined := whole
          exact ⟨[], c :: text, rfl, cut ▸ .keep rest, List.nil_subset _, .inl .nil⟩
      | cons d before' =>
          obtain ⟨rfl, tail⟩ := List.cons.inj whole
          obtain ⟨before, after, rfl, second, within, first⟩ := ih tail
          refine ⟨d :: before, after, rfl, second, List.cons_subset_cons d within, ?_⟩
          rcases first with first | ⟨dropped, feed⟩
          · exact .inl (.keep first)
          · exact .inr ⟨List.mem_cons_of_mem d dropped, feed⟩
  | @insert text joined rest ih =>
      cases before' with
      | nil =>
          have cut : after' = '\r' :: '\n' :: joined := whole
          exact ⟨[], '\n' :: text, rfl, cut ▸ .insert rest, List.nil_subset _, .inl .nil⟩
      | cons d before' =>
          obtain ⟨rfl, tail⟩ := List.cons.inj whole
          cases before' with
          | nil =>
              have cut : after' = '\n' :: joined := tail
              exact ⟨[], '\n' :: text, rfl, cut ▸ .keep rest, List.nil_subset _,
                .inr ⟨List.mem_cons_self, cut ▸ rfl⟩⟩
          | cons e before' =>
              obtain ⟨rfl, inner⟩ := List.cons.inj tail
              obtain ⟨before, after, rfl, second, within, first⟩ := ih inner
              refine ⟨'\n' :: before, after, rfl, second,
                List.subset_cons_of_subset _ (List.cons_subset_cons _ within), ?_⟩
              rcases first with first | ⟨dropped, feed⟩
              · exact .inl (.insert first)
              · exact .inr ⟨List.mem_cons_of_mem _ (List.mem_cons_of_mem _ dropped), feed⟩

/-- An unbroken word in front of the second text is in front of the first. -/
theorem split_word {word after' : List Char} (unbroken : IsUnbroken word)
    (added : AddsReturns text (word ++ after')) :
    ∃ after, text = word ++ after ∧ AddsReturns after after' := by
  obtain ⟨before, after, rfl, second, _, first⟩ := added.split_right
  rcases first with first | ⟨dropped, _⟩
  · exact ⟨after, by rw [first.eq_of_isUnbroken unbroken], second⟩
  · exact absurd dropped unbroken.2

private theorem prefix_iff (added : AddsReturns text other) {word : List Char}
    (unbroken : IsUnbroken word) : word <+: other ↔ word <+: text := by
  constructor
  · intro start
    obtain ⟨after', rfl⟩ := start
    obtain ⟨after, rfl, _⟩ := added.split_word unbroken
    exact List.prefix_append word after
  · intro start
    obtain ⟨after, rfl⟩ := start
    obtain ⟨before', after', rfl, first, _⟩ := added.split_left
    rw [first.eq_of_noFeed unbroken.1]
    exact List.prefix_append word after'

/-! Lines -/

/-- Each line is the same or has one carriage return more at its end. -/
theorem forall₂_lines (added : AddsReturns text other) :
    List.Forall₂ (fun line line' => line' = line ∨ line' = line ++ ['\r']) (lines text)
      (lines other) := by
  induction added with
  | nil => exact .cons (.inl rfl) .nil
  | @keep c text other _ ih =>
      rcases lines_cons_cases c text with ⟨rfl, pushed⟩ | ⟨line, rest, noFeed, split, pushed⟩
      · rw [pushed]
        exact .cons (.inl rfl) ih
      · rcases lines_cons_cases c other with ⟨feed, _⟩ | ⟨line', rest', _, split', pushed'⟩
        · exact absurd feed noFeed
        · rw [split, split'] at ih
          rw [pushed, pushed']
          cases ih with
          | cons first others =>
              refine .cons ?_ others
              rcases first with rfl | rfl
              · exact .inl rfl
              · exact .inr rfl
  | insert _ ih => exact .cons (.inr rfl) ih

theorem length_lines (added : AddsReturns text other) :
    (lines other).length = (lines text).length :=
  added.forall₂_lines.length_eq.symm

theorem length_solidLines (added : AddsReturns text other) :
    (solidLines other).length = (solidLines text).length := by
  rw [solidLines, solidLines, ← List.countP_eq_length_filter, ← List.countP_eq_length_filter]
  have related := added.forall₂_lines
  generalize lines text = first, lines other = second at related ⊢
  induction related with
  | nil => rfl
  | @cons line line' _ _ first _ ih =>
      have blank : isBlankLine line' = isBlankLine line := by
        rcases first with rfl | rfl
        · rfl
        · rw [isBlankLine, List.all_append]
          exact Bool.and_true _
      rw [List.countP_cons, List.countP_cons, blank, ih]

/-! Keywords -/

/-- While the characters that are passed over are within one line, both counts go on alike. -/
theorem countFrom_eq (added : AddsReturns text other) {keyword : List Char}
    (nonempty : keyword ≠ []) (unbroken : IsUnbroken keyword) (found skip : Nat)
    (within : '\n' ∉ text.take skip) :
    countFrom keyword found skip other = countFrom keyword found skip text := by
  induction added generalizing found skip with
  | nil => rfl
  | @keep c text other rest ih =>
      cases skip with
      | succ skip =>
          rw [List.take_succ_cons, List.mem_cons, not_or] at within
          exact ih found skip within.2
      | zero =>
          have same : keyword.isPrefixOf (c :: other) = keyword.isPrefixOf (c :: text) := by
            apply Bool.eq_iff_iff.mpr
            rw [List.isPrefixOf_iff_prefix, List.isPrefixOf_iff_prefix]
            exact (AddsReturns.keep rest).prefix_iff unbroken
          rw [countFrom, countFrom, same]
          split
          · next starts =>
              apply ih
              obtain ⟨first, keyword, rfl⟩ := List.exists_cons_of_ne_nil nonempty
              obtain ⟨_, after, rfl⟩ :=
                List.cons_prefix_cons.mp (List.isPrefixOf_iff_prefix.mp starts)
              rw [List.length_cons, Nat.add_sub_cancel, List.take_left]
              exact fun inside => unbroken.1 (List.mem_cons_of_mem first inside)
          · exact ih found 0 (by simp)
  | @insert text other rest ih =>
      cases skip with
      | succ skip => exact absurd List.mem_cons_self within
      | zero =>
          obtain ⟨first, keyword, rfl⟩ := List.exists_cons_of_ne_nil nonempty
          obtain ⟨noFeed, noReturn⟩ := unbroken.ne (List.mem_cons_self (a := first))
          rw [← beq_eq_false_iff_ne] at noFeed noReturn
          simp only [countFrom, List.isPrefixOf, noFeed, noReturn, Bool.false_and]
          exact ih found 0 (by simp)

theorem countOccurrences_eq (added : AddsReturns text other) {keyword : List Char}
    (nonempty : keyword ≠ []) (unbroken : IsUnbroken keyword) :
    countOccurrences keyword other = countOccurrences keyword text := by
  have isSome : keyword.isEmpty = false := by
    rw [List.isEmpty_eq_false_iff]
    exact nonempty
  rw [countOccurrences, countOccurrences, isSome]
  exact added.countFrom_eq nonempty unbroken 0 0 (by simp)

end AddsReturns

end SnippetAudit.Text
