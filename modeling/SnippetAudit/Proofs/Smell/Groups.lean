import Mathlib.Data.List.Infix
import SnippetAudit.Pattern.Reader
import SnippetAudit.Proofs.Catalog.Reading
import SnippetAudit.Proofs.Pattern.Counting
import SnippetAudit.Proofs.Scan.Phrases
import SnippetAudit.Proofs.Smell.Growth
import SnippetAudit.Proofs.Text.Encoding

/-!
Parenthesised groups of a text.

A group is opened where no group is open, and closed by the next closing parenthesis. The scan for
the most segments passes over every parenthesis that is opened inside a group. None of them is lost:
what it opens ends where the group ends, and has no more segments. So the scan, the matches of a
pattern, cutting up the bytes of the text, and looking at every opening parenthesis agree.
-/

set_option autoImplicit false

namespace SnippetAudit.Smell

open Pattern (Spans Misses metFrom slice)
open Text.Utf8 (encode cut?)

/-! The greatest of some counts -/

/-- The greatest of the counts, zero if there are none. -/
def greatest (counts : List Nat) : Nat :=
  counts.max?.getD 0

theorem greatest_cons (count : Nat) (counts : List Nat) :
    greatest (count :: counts) = max count (greatest counts) := by
  rw [greatest, List.max?_cons, greatest]
  cases counts.max? with
  | none => exact (Nat.max_zero count).symm
  | some other => rfl

theorem greatest_le_iff {counts : List Nat} {bound : Nat} :
    greatest counts ≤ bound ↔ ∀ count ∈ counts, count ≤ bound := by
  induction counts with
  | nil => simp [greatest]
  | cons count counts ih => rw [greatest_cons, Nat.max_le, ih, List.forall_mem_cons]

/-! Groups -/

/-- The segments into which commas divide the inside of a group. -/
def segments (inside : List Char) : Nat :=
  inside.count ',' + 1

/-- The groups of a text from left to right, each given by what is inside of it. -/
inductive Grouped : List Char → List (List Char) → Prop where
  | unopened {text : List Char} : '(' ∉ text → Grouped text []
  | unclosed {before inside : List Char} :
      '(' ∉ before → ')' ∉ inside → Grouped (before ++ '(' :: inside) []
  | group {before inside rest : List Char} {groups : List (List Char)} :
      '(' ∉ before → ')' ∉ inside → Grouped rest groups →
      Grouped (before ++ '(' :: (inside ++ ')' :: rest)) (inside :: groups)

private theorem exists_grouped (text : List Char) : ∃ groups, Grouped text groups := by
  induction size : text.length using Nat.strongRecOn generalizing text with
  | ind n ih =>
      by_cases opening : '(' ∈ text
      · obtain ⟨before, behind, rfl, noOpening⟩ := List.eq_append_cons_of_mem opening
        by_cases closing : ')' ∈ behind
        · obtain ⟨inside, rest, rfl, noClosing⟩ := List.eq_append_cons_of_mem closing
          have shorter : rest.length < n := by
            simp only [List.length_append, List.length_cons] at size
            omega
          obtain ⟨groups, grouped⟩ := ih _ shorter rest rfl
          exact ⟨_, .group noOpening noClosing grouped⟩
        · exact ⟨_, .unclosed noOpening closing⟩
      · exact ⟨_, .unopened opening⟩

/-! The scan -/

private theorem foldl_step_closed {text : List Char} (noOpening : '(' ∉ text) (most : Nat) :
    text.foldl GroupScan.step ⟨none, most⟩ = ⟨none, most⟩ := by
  induction text with
  | nil => rfl
  | cons c text ih =>
      obtain ⟨different, noOpening⟩ := List.ne_and_not_mem_of_not_mem_cons noOpening
      rw [List.foldl_cons, GroupScan.step_closed, if_neg different.symm, ih noOpening]

private theorem foldl_step_open {inside : List Char} (noClosing : ')' ∉ inside) (count most : Nat) :
    inside.foldl GroupScan.step ⟨some count, most⟩ = ⟨some (count + inside.count ','), most⟩ := by
  induction inside generalizing count with
  | nil => rfl
  | cons c inside ih =>
      obtain ⟨different, noClosing⟩ := List.ne_and_not_mem_of_not_mem_cons noClosing
      rw [List.foldl_cons, GroupScan.step_open, if_neg different.symm, List.count_cons]
      by_cases comma : c = ','
      · rw [if_pos comma, ih noClosing, if_pos (beq_iff_eq.mpr comma), Nat.add_right_comm,
          Nat.add_assoc]
      · rw [if_neg comma, ih noClosing, if_neg (mt beq_iff_eq.mp comma), Nat.add_zero]

theorem Grouped.most_foldl {text : List Char} {groups : List (List Char)}
    (grouped : Grouped text groups) (most : Nat) :
    (text.foldl GroupScan.step ⟨none, most⟩).most =
      max most (greatest (groups.map segments)) := by
  induction grouped generalizing most with
  | unopened noOpening =>
      rw [foldl_step_closed noOpening]
      exact (Nat.max_zero most).symm
  | unclosed noOpening noClosing =>
      rw [List.foldl_append, foldl_step_closed noOpening, List.foldl_cons, GroupScan.step_closed,
        if_pos rfl, foldl_step_open noClosing]
      exact (Nat.max_zero most).symm
  | @group _ inside _ _ noOpening noClosing _ ih =>
      have inner : 1 + inside.count ',' = segments inside := Nat.add_comm ..
      rw [List.foldl_append, foldl_step_closed noOpening, List.foldl_cons, GroupScan.step_closed,
        if_pos rfl, List.foldl_append, foldl_step_open noClosing, List.foldl_cons,
        GroupScan.step_open, if_pos rfl, ih, inner, List.map_cons, greatest_cons, Nat.max_assoc]

theorem Grouped.mostParameters_eq {text : List Char} {groups : List (List Char)}
    (grouped : Grouped text groups) : mostParameters text = greatest (groups.map segments) :=
  (grouped.most_foldl 0).trans (Nat.zero_max _)

/-! Every opening parenthesis -/

/-- The segments of what a text opens with its first character, up to the first closing parenthesis.
Nothing if it opens nothing or is not closed. -/
def opened? : List Char → Option Nat
  | [] => none
  | c :: behind =>
      if c = '(' ∧ ')' ∈ behind then some (segments (behind.takeWhile (· ≠ ')'))) else none

private theorem takeWhile_inside {inside rest : List Char} (noClosing : ')' ∉ inside) :
    (inside ++ ')' :: rest).takeWhile (· ≠ ')') = inside := by
  rw [List.takeWhile_append_of_pos]
  · simp
  · intro c member
    exact decide_eq_true fun same => noClosing (same ▸ member)

theorem opened?_eq_some_iff {text : List Char} {count : Nat} :
    opened? text = some count ↔
      ∃ inside rest, text = '(' :: (inside ++ ')' :: rest) ∧ ')' ∉ inside ∧
        segments inside = count := by
  cases text with
  | nil => simp [opened?]
  | cons c behind =>
      rw [opened?]
      constructor
      · intro found
        split at found
        · next opens =>
            obtain ⟨rfl, closing⟩ := opens
            obtain ⟨inside, rest, rfl, noClosing⟩ := List.eq_append_cons_of_mem closing
            rw [takeWhile_inside noClosing] at found
            exact ⟨inside, rest, rfl, noClosing, Option.some.inj found⟩
        · cases found
      · intro opens
        obtain ⟨inside, rest, same, noClosing, rfl⟩ := opens
        obtain ⟨rfl, rfl⟩ := List.cons.inj same
        rw [if_pos ⟨rfl, by simp⟩, takeWhile_inside noClosing]

/-- The segments of all that is opened in a text, in the order of the opening parentheses. -/
def allOpened (text : List Char) : List Nat :=
  text.tails.filterMap opened?

theorem mem_allOpened {text : List Char} {count : Nat} :
    count ∈ allOpened text ↔
      ∃ before inside rest, text = before ++ '(' :: (inside ++ ')' :: rest) ∧ ')' ∉ inside ∧
        segments inside = count := by
  rw [allOpened, List.mem_filterMap]
  constructor
  · intro opens
    obtain ⟨tail, suffix, found⟩ := opens
    obtain ⟨before, rfl⟩ := (List.mem_tails _ _).mp suffix
    obtain ⟨inside, rest, rfl, noClosing, same⟩ := opened?_eq_some_iff.mp found
    exact ⟨before, inside, rest, rfl, noClosing, same⟩
  · intro opens
    obtain ⟨before, inside, rest, rfl, noClosing, same⟩ := opens
    exact ⟨_, (List.mem_tails _ _).mpr ⟨before, rfl⟩,
      opened?_eq_some_iff.mpr ⟨inside, rest, rfl, noClosing, same⟩⟩

theorem Grouped.mem_allOpened {text : List Char} {groups : List (List Char)}
    (grouped : Grouped text groups) : ∀ inside ∈ groups, segments inside ∈ allOpened text := by
  induction grouped with
  | unopened => simp
  | unclosed => simp
  | @group before inside rest groups _ noClosing _ ih =>
      rw [List.forall_mem_cons]
      refine ⟨Smell.mem_allOpened.mpr ⟨before, inside, rest, rfl, noClosing, rfl⟩, ?_⟩
      intro other member
      obtain ⟨more, within, behind, rfl, otherClosing, same⟩ :=
        Smell.mem_allOpened.mp (ih other member)
      refine Smell.mem_allOpened.mpr
        ⟨before ++ '(' :: (inside ++ ')' :: more), within, behind, ?_, otherClosing, same⟩
      simp

private theorem mostParameters_eq_greatest (text : List Char) :
    mostParameters text = greatest (allOpened text) := by
  apply Nat.le_antisymm
  · obtain ⟨groups, grouped⟩ := exists_grouped text
    rw [grouped.mostParameters_eq, greatest_le_iff]
    intro count member
    obtain ⟨inside, among, rfl⟩ := List.mem_map.mp member
    exact greatest_le_iff.mp (Nat.le_refl _) _ (grouped.mem_allOpened inside among)
  · rw [greatest_le_iff]
    intro count member
    obtain ⟨before, inside, rest, rfl, noClosing, rfl⟩ := mem_allOpened.mp member
    -- what is opened, taken by itself, is a text with one group
    have alone : Grouped ([] ++ '(' :: (inside ++ ')' :: [])) [inside] :=
      .group List.not_mem_nil noClosing (.unopened List.not_mem_nil)
    have single : mostParameters ('(' :: (inside ++ [')'])) = segments inside :=
      alone.mostParameters_eq
    rw [← single]
    exact mostParameters_le_of_infix ⟨before, rest, by simp⟩

/-! Matches -/

/-- An opening parenthesis, anything but a closing one, and a closing one. -/
def groupPattern : Pattern :=
  Scan.inTurn
    [.one (.single '('), .star true (.one (CharSet.single ')').compl), .one (.single ')')]

private theorem ofText_groupPattern : Pattern.ofText ("\\([^)]*\\)".toList) = .ok groupPattern :=
  eq_ok_of_toOption (by decide +kernel)

theorem contains_compl_closing {c : Char} :
    (CharSet.single ')').compl.contains c = true ↔ c ≠ ')' := by
  have ranges : (CharSet.single ')').compl = ⟨[(0, 40), (42, 0x10FFFF)]⟩ := by decide
  have bound := Scan.toNat_le_lastCode c
  simp only [ranges, Scan.contains_iff, ne_eq, ← Char.toNat_inj]
  simp
  omega

private theorem spans_one_single {sign : Char} {left piece right : List Char} :
    Spans (.one (.single sign)) left piece right ↔ piece = [sign] := by
  constructor
  · intro spans
    cases spans with
    | one inside => rw [Scan.contains_single.mp inside]
  · intro same
    subst same
    exact .one (Scan.contains_single.mpr rfl)

private theorem spans_groupPattern {left piece right : List Char} :
    Spans groupPattern left piece right ↔
      ∃ inside, piece = '(' :: (inside ++ [')']) ∧ ')' ∉ inside := by
  constructor
  · intro spans
    obtain ⟨first, _, rfl, opens, spans⟩ := Scan.spans_inTurn_cons.mp spans
    obtain ⟨inside, last, rfl, inner, closes⟩ := Scan.spans_inTurn_cons.mp spans
    obtain rfl := spans_one_single.mp opens
    obtain rfl := spans_one_single.mp closes
    refine ⟨inside, rfl, fun member => ?_⟩
    exact contains_compl_closing.mp (Scan.spans_star_one.mp inner _ member) rfl
  · intro split
    obtain ⟨inside, rfl, noClosing⟩ := split
    refine Scan.spans_inTurn_cons.mpr ⟨['('], _, rfl, spans_one_single.mpr rfl, ?_⟩
    refine Scan.spans_inTurn_cons.mpr ⟨inside, _, rfl, ?_, spans_one_single.mpr rfl⟩
    refine Scan.spans_star_one.mpr fun c member => contains_compl_closing.mpr ?_
    exact fun same => noClosing (same ▸ member)

private theorem roundsTake_groupPattern : groupPattern.roundsTake = true := rfl

private theorem mayBeEmpty_groupPattern : groupPattern.mayBeEmpty = false := rfl

private theorem misses_of_ne {c : Char} (different : c ≠ '(') (left right : List Char) :
    Misses groupPattern left (c :: right) := by
  intro piece rest split spans
  obtain ⟨inside, rfl, _⟩ := spans_groupPattern.mp spans
  exact different (List.cons.inj split).1

private theorem misses_of_unclosed {right : List Char} (noClosing : ')' ∉ right)
    (left : List Char) :
    Misses groupPattern left right := by
  intro piece rest split spans
  obtain ⟨inside, rfl, _⟩ := spans_groupPattern.mp spans
  exact noClosing (by rw [split]; simp)

private theorem metFrom_unopened {before : List Char} (noOpening : '(' ∉ before)
    (left right : List Char) :
    metFrom groupPattern 0 left (before ++ right) =
      metFrom groupPattern 0 (left ++ before) right := by
  apply Pattern.metFrom_of_misses roundsTake_groupPattern
  intro first c after split
  apply misses_of_ne
  rintro rfl
  exact noOpening (by rw [split]; simp)

/-- The pattern matches the groups, from left to right. -/
theorem Grouped.slices_metFrom {text : List Char} {groups : List (List Char)}
    (grouped : Grouped text groups) (left : List Char) :
    (metFrom groupPattern 0 left text).map
        (fun found => slice (left ++ text) found.start found.stop) =
      groups.map fun inside => '(' :: (inside ++ [')']) := by
  induction grouped generalizing left with
  | @unopened text noOpening =>
      have walked := metFrom_unopened noOpening left []
      rw [List.append_nil] at walked
      rw [walked]
      rfl
  | @unclosed before inside noOpening noClosing =>
      have noMatch : metFrom groupPattern 0 (left ++ before) ('(' :: inside ++ []) =
          metFrom groupPattern 0 (left ++ before ++ '(' :: inside) [] := by
        apply Pattern.metFrom_of_misses roundsTake_groupPattern
        intro first c after split
        apply misses_of_unclosed
        intro member
        have within : ')' ∈ '(' :: inside := by
          rw [split]
          exact List.mem_append_right _ (by rwa [List.append_nil] at member)
        simp [noClosing] at within
      rw [List.append_nil] at noMatch
      rw [metFrom_unopened noOpening, noMatch]
      rfl
  | @group before inside rest groups noOpening noClosing _ ih =>
      have whole : '(' :: (inside ++ ')' :: rest) = '(' :: (inside ++ [')']) ++ rest := by simp
      have only : ∀ other more, '(' :: (inside ++ [')']) ++ rest = other ++ more →
          Spans groupPattern (left ++ before) other more → other = '(' :: (inside ++ [')']) := by
        intro other more split spans
        obtain ⟨within, rfl, otherClosing⟩ := spans_groupPattern.mp spans
        have cut : inside ++ ')' :: rest = within ++ ')' :: more := by simpa using split
        rw [← takeWhile_inside noClosing, cut, takeWhile_inside otherClosing]
      obtain ⟨found, start, stop, met⟩ := Pattern.metFrom_of_spans roundsTake_groupPattern
        mayBeEmpty_groupPattern (spans_groupPattern.mpr ⟨inside, rfl, noClosing⟩) only
      rw [metFrom_unopened noOpening, whole, met, List.map_cons, start, stop, List.map_cons,
        ← List.append_assoc left, Pattern.slice_between]
      congr 1
      have later := ih (left ++ before ++ '(' :: (inside ++ [')']))
      rw [← later, List.append_assoc (left ++ before)]

theorem Grouped.slices_occurrences {text : List Char} {groups : List (List Char)}
    (grouped : Grouped text groups) :
    (groupPattern.occurrences text).map (fun found => slice text found.start found.stop) =
      groups.map fun inside => '(' :: (inside ++ [')']) := by
  rw [Pattern.occurrences_eq_metFrom roundsTake_groupPattern mayBeEmpty_groupPattern]
  exact grouped.slices_metFrom []

/-! Cutting up the bytes -/

/-- The most segments of a group, found by cutting up bytes: at the next opening parenthesis, then
before and behind the next closing one. Nothing if bytes are cut beyond their end or inside a
character, or if what is left to search does not get shorter. -/
def cutGroups? (bytes : List UInt8) (most : Nat) : Option Nat :=
  match bytes.findIdx? (· == .ofNat '('.toNat) with
  | none => some most
  | some opening => do
      let (_, group) ← cut? bytes opening
      match group.findIdx? (· == .ofNat ')'.toNat) with
      | none => some most
      | some closing =>
          let (inside, _) ← cut? group closing
          let (_, rest) ← cut? group (closing + 1)
          if shorter : rest.length < bytes.length then
            cutGroups? rest (max most (inside.count (.ofNat ','.toNat) + 1))
          else none
termination_by bytes.length

theorem Grouped.cutGroups?_encode {text : List Char} {groups : List (List Char)}
    (grouped : Grouped text groups) (most : Nat) :
    cutGroups? (encode text) most = some (max most (greatest (groups.map segments))) := by
  induction grouped generalizing most with
  | unopened noOpening =>
      rw [cutGroups?, Text.Utf8.findIdx?_encode_eq_none (by decide) noOpening]
      exact congrArg some (Nat.max_zero most).symm
  | @unclosed before inside noOpening noClosing =>
      have closing : ')' ∉ '(' :: inside := by simp [noClosing]
      rw [cutGroups?, Text.Utf8.findIdx?_encode (by decide) noOpening]
      simp only [Text.Utf8.cut?_encode, Option.bind_eq_bind, Option.bind_some,
        Text.Utf8.findIdx?_encode_eq_none (by decide) closing]
      exact congrArg some (Nat.max_zero most).symm
  | @group first inside rest groups noOpening noClosing _ ih =>
      have noneBefore : ')' ∉ '(' :: inside := by simp [noClosing]
      have found : (encode ('(' :: (inside ++ ')' :: rest))).findIdx? (· == .ofNat ')'.toNat) =
          some (encode ('(' :: inside)).length :=
        Text.Utf8.findIdx?_encode (by decide) noneBefore
      have before : cut? (encode ('(' :: (inside ++ ')' :: rest))) (encode ('(' :: inside)).length =
          some (encode ('(' :: inside), encode (')' :: rest)) :=
        Text.Utf8.cut?_encode ('(' :: inside) (')' :: rest)
      have behind : cut? (encode ('(' :: (inside ++ ')' :: rest)))
          ((encode ('(' :: inside)).length + 1) =
            some (encode ('(' :: inside) ++ encode [')'], encode rest) := by
        have cut := Text.Utf8.cut?_encode ('(' :: inside ++ [')']) rest
        rw [List.append_assoc, Text.Utf8.encode_append _ [')'], List.length_append] at cut
        exact cut
      have commas : (encode ('(' :: inside)).count (.ofNat ','.toNat) + 1 = segments inside := by
        rw [Text.Utf8.count_encode (by decide), List.count_cons_of_ne (by decide), segments]
      have shorter : (encode rest).length <
          (encode (first ++ '(' :: (inside ++ ')' :: rest))).length := by
        have one : (String.utf8EncodeChar ')').length = 1 := by decide
        simp only [Text.Utf8.encode_append, Text.Utf8.encode_cons, List.length_append, one]
        omega
      rw [cutGroups?, Text.Utf8.findIdx?_encode (by decide) noOpening]
      simp only [Text.Utf8.cut?_encode, Option.bind_eq_bind, Option.bind_some, found, before,
        behind, commas]
      rw [dif_pos shorter, ih, List.map_cons, greatest_cons, Nat.max_assoc]

/-- The most segments of a group are the most of anything that an opening parenthesis opens up to
the first closing one behind it, whether that parenthesis is inside a group or not. They are also
the most of the matches of a pattern, from left to right and without overlap, and what cutting up
the bytes of the text comes to, which never cuts beyond the end or inside a character. -/
theorem mostParameters_eq_opened_matched_cut (text : List Char) :
    mostParameters text = greatest (allOpened text) ∧
    (∃ pattern, Pattern.ofText "\\([^)]*\\)".toList = .ok pattern ∧
      mostParameters text = greatest ((pattern.occurrences text).map fun found =>
        segments (slice text found.start found.stop))) ∧
    cutGroups? (encode text) 0 = some (mostParameters text) := by
  obtain ⟨groups, grouped⟩ := exists_grouped text
  refine ⟨mostParameters_eq_greatest text, ⟨groupPattern, ofText_groupPattern, ?_⟩, ?_⟩
  · have matched := congrArg (List.map segments) grouped.slices_occurrences
    have bare : ∀ inside, segments ('(' :: (inside ++ [')'])) = segments inside := by
      intro inside
      simp [segments]
    simp only [List.map_map, Function.comp_def, bare] at matched
    rw [matched, grouped.mostParameters_eq]
  · rw [grouped.cutGroups?_encode, Nat.zero_max, grouped.mostParameters_eq]

end SnippetAudit.Smell
