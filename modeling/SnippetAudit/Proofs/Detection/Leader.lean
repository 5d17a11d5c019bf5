import SnippetAudit.Detection

/-!
The language that is chosen among the candidates.

The votes are gone through once, with the best candidate so far. What it is after any number of them
is told by where it stands: it has more votes than all candidates before it and no fewer than those
behind it. There is one such place at most, and none only if nobody has a vote.
-/

set_option autoImplicit false

namespace SnippetAudit.Detection

/-- `Leads scores place entry` says that the entry at the place has votes, more than every earlier
one and at least as many as every later one. -/
structure Leads (scores : List (String × Nat)) (place : Nat) (entry : String × Nat) : Prop where
  stands : scores[place]? = some entry
  voted : 0 < entry.2
  earlier : ∀ other score, other < place → scores[other]? = some score → score.2 < entry.2
  later : ∀ other score, place < other → scores[other]? = some score → score.2 ≤ entry.2

/-- Two entries cannot both lead: the earlier one would need more votes than itself. -/
theorem Leads.unique {scores : List (String × Nat)} {place other : Nat} {entry score : String × Nat}
    (leads : Leads scores place entry) (otherLeads : Leads scores other score) :
    other = place := by
  rcases Nat.lt_trichotomy other place with before | same | behind
  · have more := leads.earlier other score before otherLeads.stands
    have fewer := otherLeads.later place entry before leads.stands
    omega
  · exact same
  · have more := otherLeads.earlier place entry behind leads.stands
    have fewer := leads.later other score behind otherLeads.stands
    omega

/-- What the best candidate is once the scores have been gone through. -/
inductive Best (seen : List (String × Nat)) : Option (String × Nat) → Prop where
  | nobody : (∀ score ∈ seen, score.2 = 0) → Best seen none
  | leader {before after : List (String × Nat)} {entry : String × Nat} :
      seen = before ++ entry :: after → 0 < entry.2 →
      (∀ score ∈ before, score.2 < entry.2) → (∀ score ∈ after, score.2 ≤ entry.2) →
      Best seen (some entry)

theorem better_none (candidate : String × Nat) :
    better none candidate = if 0 < candidate.2 then some candidate else none := rfl

theorem better_some (entry candidate : String × Nat) :
    better (some entry) candidate =
      if entry.2 < candidate.2 then some candidate else some entry := rfl

/-- One more candidate takes over exactly if it has more votes than all before it. -/
theorem Best.step {seen : List (String × Nat)} {best : Option (String × Nat)}
    (isBest : Best seen best) (candidate : String × Nat) :
    Best (seen ++ [candidate]) (better best candidate) := by
  cases isBest with
  | nobody zero =>
      by_cases voted : 0 < candidate.2
      · rw [better_none, if_pos voted]
        refine .leader rfl voted ?_ (fun _ member => absurd member List.not_mem_nil)
        intro score member
        rw [zero score member]
        exact voted
      · rw [better_none, if_neg voted]
        refine .nobody fun score member => ?_
        rcases List.mem_append.mp member with old | new
        · exact zero score old
        · rw [List.mem_singleton.mp new]
          exact Nat.eq_zero_of_not_pos voted
  | @leader before after entry split voted more enough =>
      by_cases ahead : entry.2 < candidate.2
      · rw [better_some, if_pos ahead]
        refine .leader rfl (Nat.zero_lt_of_lt ahead) ?_
          (fun _ member => absurd member List.not_mem_nil)
        intro score member
        rw [split, List.mem_append, List.mem_cons] at member
        rcases member with old | rfl | late
        · exact Nat.lt_trans (more score old) ahead
        · exact ahead
        · exact Nat.lt_of_le_of_lt (enough score late) ahead
      · rw [better_some, if_neg ahead]
        have longer : seen ++ [candidate] = before ++ entry :: (after ++ [candidate]) := by
          rw [split, List.append_assoc, List.cons_append]
        refine .leader longer voted more fun score member => ?_
        rcases List.mem_append.mp member with late | new
        · exact enough score late
        · rw [List.mem_singleton.mp new]
          exact Nat.le_of_not_lt ahead

theorem Best.foldl {seen : List (String × Nat)} {best : Option (String × Nat)}
    (isBest : Best seen best) (scores : List (String × Nat)) :
    Best (seen ++ scores) (scores.foldl better best) := by
  induction scores generalizing seen best with
  | nil => rwa [List.append_nil]
  | cons candidate scores ih =>
      have next := ih (isBest.step candidate)
      rwa [List.append_assoc, List.singleton_append] at next

private theorem best_scores (scores : List (String × Nat)) :
    Best scores (scores.foldl better none) :=
  Best.foldl (.nobody fun _ member => absurd member List.not_mem_nil) scores

private theorem leads_of_split {before after : List (String × Nat)} {entry : String × Nat}
    (voted : 0 < entry.2) (more : ∀ score ∈ before, score.2 < entry.2)
    (enough : ∀ score ∈ after, score.2 ≤ entry.2) :
    Leads (before ++ entry :: after) before.length entry := by
  refine ⟨?_, voted, ?_, ?_⟩
  · rw [List.getElem?_append_right (Nat.le_refl _), Nat.sub_self, List.getElem?_cons_zero]
  · intro other score inside stands
    rw [List.getElem?_append_left inside] at stands
    exact more score (List.mem_of_getElem? stands)
  · intro other score behind stands
    obtain ⟨gap, rfl⟩ := Nat.exists_eq_add_of_lt behind
    rw [List.getElem?_append_right (by omega)] at stands
    have shifted : before.length + gap + 1 - before.length = gap + 1 := by omega
    rw [shifted, List.getElem?_cons_succ] at stands
    exact enough score (List.mem_of_getElem? stands)

/-- Either nobody has a vote, or the language is that of the place that leads. -/
theorem language_cases (catalog : Catalog) (text : List Char) :
    (∀ score ∈ scores catalog text, score.2 = 0) ∧ language catalog text = fallback ∨
      ∃ place entry, Leads (scores catalog text) place entry ∧
        language catalog text = entry.1 := by
  have best := best_scores (scores catalog text)
  rw [language]
  cases chosen : (scores catalog text).foldl better none with
  | none =>
      rw [chosen] at best
      cases best with
      | nobody zero => exact .inl ⟨zero, rfl⟩
  | some entry =>
      rw [chosen] at best
      cases best with
      | leader split voted more enough =>
          rw [split]
          exact .inr ⟨_, entry, leads_of_split voted more enough, rfl⟩

/-- Without a vote the language is `text`. Otherwise there is exactly one place of the catalog that
leads, and the language is the one that stands there. -/
theorem language_eq_leader (catalog : Catalog) (text : List Char) :
    ((∀ score ∈ scores catalog text, score.2 = 0) → language catalog text = "text") ∧
    ((∃ score ∈ scores catalog text, score.2 ≠ 0) →
      ∃ place fingerprint entry,
        catalog.fingerprints[place]? = some fingerprint ∧
        Leads (scores catalog text) place entry ∧
        (∀ other score, Leads (scores catalog text) other score → other = place) ∧
        language catalog text = fingerprint.language) := by
  rcases language_cases catalog text with ⟨zero, chosen⟩ | ⟨place, entry, leads, chosen⟩
  · refine ⟨fun _ => chosen, fun votes => ?_⟩
    obtain ⟨score, member, voted⟩ := votes
    exact absurd (zero score member) voted
  · constructor
    · intro zero
      have noVote := zero entry (List.mem_of_getElem? leads.stands)
      have voted := leads.voted
      omega
    · intro _
      have stands := leads.stands
      rw [scores, List.getElem?_map, Option.map_eq_some_iff] at stands
      obtain ⟨fingerprint, found, rfl⟩ := stands
      exact ⟨place, fingerprint, _, found, leads, fun _ _ other => leads.unique other, chosen⟩

/-- A candidate without a vote in front, one that is caught up with twice, and its own language
again behind. -/
theorem language_eq_leader_tied :
    let catalog : Catalog :=
      { Catalog.nothing with
        fingerprints :=
          [⟨"gamma", ["q"]⟩, ⟨"alpha", ["x"]⟩, ⟨"beta", ["y", "z"]⟩, ⟨"gamma", []⟩,
            ⟨"alpha", ["x"]⟩] }
    (∃ score ∈ scores catalog ['X', ' ', 'z'], score.2 ≠ 0) ∧
    ∃ place fingerprint entry,
      catalog.fingerprints[place]? = some fingerprint ∧
      Leads (scores catalog ['X', ' ', 'z']) place entry ∧
      (∀ other score, Leads (scores catalog ['X', ' ', 'z']) other score → other = place) ∧
      language catalog ['X', ' ', 'z'] = fingerprint.language := by
  intro catalog
  have voted : ∃ score ∈ scores catalog ['X', ' ', 'z'], score.2 ≠ 0 := by decide +kernel
  exact ⟨voted, (language_eq_leader catalog ['X', ' ', 'z']).2 voted⟩

end SnippetAudit.Detection
