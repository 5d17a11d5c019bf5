import SnippetAudit.Text.Lines

/-!
Lines and pieces of a text: a piece without line feeds stands in one line, and every line is such a
piece.
-/

set_option autoImplicit false

namespace SnippetAudit.Text

theorem lines_cons (c : Char) (text : List Char) :
    lines (c :: text) = pushToLines c (lines text) := rfl

theorem lines_ne_nil (text : List Char) : lines text ≠ [] := by
  cases text with
  | nil => exact List.cons_ne_nil _ _
  | cons c text =>
      rw [lines_cons]
      unfold pushToLines
      split
      · exact List.cons_ne_nil _ _
      · split <;> exact List.cons_ne_nil _ _

/-- A line feed ends a line, so the lines before it and those behind it are apart. -/
theorem lines_append_feed (before after : List Char) :
    lines (before ++ '\n' :: after) = lines before ++ lines after := by
  induction before with
  | nil => rfl
  | cons c before ih =>
      obtain ⟨line, rest, split⟩ := List.exists_cons_of_ne_nil (lines_ne_nil before)
      rw [List.cons_append, lines_cons, lines_cons, ih, split]
      unfold pushToLines
      split <;> rfl

theorem solidLines_append_feed (before after : List Char) :
    solidLines (before ++ '\n' :: after) = solidLines before ++ solidLines after := by
  rw [solidLines, lines_append_feed, List.filter_append]
  rfl

/-- A line feed opens a new line, and any other character is put in front of the first one. -/
theorem lines_cons_cases (c : Char) (text : List Char) :
    (c = '\n' ∧ lines (c :: text) = [] :: lines text) ∨
      ∃ line rest, c ≠ '\n' ∧ lines text = line :: rest ∧
        lines (c :: text) = (c :: line) :: rest := by
  by_cases feed : c = '\n'
  · exact .inl ⟨feed, if_pos feed⟩
  · obtain ⟨line, rest, split⟩ := List.exists_cons_of_ne_nil (lines_ne_nil text)
    refine .inr ⟨line, rest, feed, split, ?_⟩
    rw [lines_cons, split]
    exact if_neg feed

theorem newline_notMem_of_mem_lines {text line : List Char} (member : line ∈ lines text) :
    '\n' ∉ line := by
  induction text generalizing line with
  | nil =>
      obtain rfl := List.mem_singleton.mp member
      exact List.not_mem_nil
  | cons c text ih =>
      rcases lines_cons_cases c text with ⟨_, split⟩ | ⟨first, rest, noFeed, split, pushed⟩
      · rw [split] at member
        cases member with
        | head => exact List.not_mem_nil
        | tail _ member => exact ih member
      · rw [pushed] at member
        cases member with
        | head =>
            intro inside
            cases inside with
            | head => exact noFeed rfl
            | tail _ inside => exact ih (split ▸ List.mem_cons_self) inside
        | tail _ member => exact ih (split ▸ List.mem_cons_of_mem first member)

theorem lines_of_noFeed {line : List Char} (noFeed : '\n' ∉ line) : lines line = [line] := by
  induction line with
  | nil => rfl
  | cons c line ih =>
      obtain ⟨notFeed, others⟩ := not_or.mp (mt List.mem_cons.mpr noFeed)
      rcases lines_cons_cases c line with ⟨feed, _⟩ | ⟨first, rest, _, split, pushed⟩
      · exact absurd feed.symm notFeed
      · rw [ih others] at split
        cases split
        exact pushed

/-- Induction along the lines of a text. -/
@[elab_as_elim]
theorem lines_induction {motive : List Char → Prop}
    (last : ∀ line, '\n' ∉ line → motive line)
    (feed : ∀ line rest, '\n' ∉ line → motive rest → motive (line ++ '\n' :: rest))
    (text : List Char) : motive text := by
  induction size : text.length using Nat.strongRecOn generalizing text with
  | ind n ih =>
      by_cases fed : '\n' ∈ text
      · obtain ⟨line, rest, rfl, noFeed⟩ := List.eq_append_cons_of_mem fed
        have shorter : rest.length < n := by
          rw [← size, List.length_append, List.length_cons]
          omega
        exact feed line rest noFeed (ih rest.length shorter rest rfl)
      · exact last text fed

/-- Rows without line feeds are the lines of the text that they are joined to. -/
theorem lines_intercalate {rows : List (List Char)} (nonempty : rows ≠ [])
    (noFeed : ∀ row ∈ rows, '\n' ∉ row) : lines (['\n'].intercalate rows) = rows := by
  induction rows with
  | nil => exact absurd rfl nonempty
  | cons row rows ih =>
      obtain ⟨first, others⟩ := List.forall_mem_cons.mp noFeed
      cases rows with
      | nil => rw [List.intercalate_singleton, lines_of_noFeed first]
      | cons next rows =>
          rw [List.intercalate_cons_cons, List.append_assoc, List.singleton_append,
            lines_append_feed, lines_of_noFeed first, ih (List.cons_ne_nil next rows) others,
            List.singleton_append]

/-- The first line stands at the start of the text. -/
theorem head_lines_prefix {text line : List Char} {rest : List (List Char)}
    (split : lines text = line :: rest) : line <+: text := by
  induction text generalizing line rest with
  | nil =>
      cases split
      exact List.nil_prefix
  | cons c text ih =>
      rcases lines_cons_cases c text with ⟨_, pushed⟩ | ⟨first, others, _, inner, pushed⟩
      · rw [pushed] at split
        cases split
        exact List.nil_prefix
      · rw [pushed] at split
        cases split
        exact List.prefix_cons_inj c |>.mpr (ih inner)

theorem infix_of_mem_lines {text line : List Char} (member : line ∈ lines text) :
    line <:+: text := by
  induction text generalizing line with
  | nil =>
      obtain rfl := List.mem_singleton.mp member
      exact List.infix_rfl
  | cons c text ih =>
      rcases lines_cons_cases c text with ⟨_, pushed⟩ | ⟨first, rest, _, split, pushed⟩
      · rw [pushed] at member
        cases member with
        | head => exact List.nil_infix
        | tail _ member => exact List.infix_cons (ih member)
      · have whole := head_lines_prefix pushed
        rw [pushed] at member
        cases member with
        | head => exact whole.isInfix
        | tail _ member => exact List.infix_cons (ih (split ▸ List.mem_cons_of_mem first member))

/-- A start of the text without line feeds is a start of the first line. -/
theorem prefix_head_lines {text piece : List Char} (start : piece <+: text)
    (noFeed : '\n' ∉ piece) : ∃ line rest, lines text = line :: rest ∧ piece <+: line := by
  induction text generalizing piece with
  | nil =>
      obtain rfl := List.prefix_nil.mp start
      exact ⟨[], [], rfl, List.nil_prefix⟩
  | cons c text ih =>
      cases piece with
      | nil =>
          obtain ⟨line, rest, split⟩ := List.exists_cons_of_ne_nil (lines_ne_nil (c :: text))
          exact ⟨line, rest, split, List.nil_prefix⟩
      | cons first piece =>
          obtain ⟨rfl, inner⟩ := List.cons_prefix_cons.mp start
          rw [List.mem_cons, not_or] at noFeed
          obtain ⟨line, rest, split, inside⟩ := ih inner noFeed.2
          rcases lines_cons_cases first text with ⟨feed, _⟩ | ⟨line, rest, _, same, pushed⟩
          · exact absurd feed.symm noFeed.1
          · rw [split] at same
            cases same
            exact ⟨_, _, pushed, List.cons_prefix_cons.mpr ⟨rfl, inside⟩⟩

/-- A piece without line feeds stands in one line. -/
theorem infix_line_of_infix {text piece : List Char} (inside : piece <:+: text)
    (noFeed : '\n' ∉ piece) : ∃ line ∈ lines text, piece <:+: line := by
  induction text with
  | nil => exact ⟨[], List.mem_singleton.mpr rfl, inside⟩
  | cons c text ih =>
      cases List.infix_cons_iff.mp inside with
      | inl start =>
          obtain ⟨line, rest, split, inLine⟩ := prefix_head_lines start noFeed
          exact ⟨line, split ▸ List.mem_cons_self, inLine.isInfix⟩
      | inr later =>
          obtain ⟨line, member, inLine⟩ := ih later
          rcases lines_cons_cases c text with ⟨_, pushed⟩ | ⟨first, rest, _, split, pushed⟩
          · exact ⟨line, pushed ▸ List.mem_cons_of_mem _ member, inLine⟩
          · rw [split] at member
            cases member with
            | head => exact ⟨c :: line, pushed ▸ List.mem_cons_self, List.infix_cons inLine⟩
            | tail _ member => exact ⟨line, pushed ▸ List.mem_cons_of_mem _ member, inLine⟩

/-! Lengths -/

theorem byteLength_cons (c : Char) (text : List Char) :
    byteLength (c :: text) = c.utf8Size + byteLength text := by
  have start : ∀ (text : List Char) (total : Nat),
      text.foldl (fun total c => total + c.utf8Size) total = total + byteLength text := by
    intro text
    induction text with
    | nil => intro total; rfl
    | cons c text ih =>
        intro total
        rw [byteLength, List.foldl_cons, List.foldl_cons, ih, ih]
        omega
  rw [byteLength, List.foldl_cons, start, Nat.zero_add]

theorem byteLength_append (left right : List Char) :
    byteLength (left ++ right) = byteLength left + byteLength right := by
  induction left with
  | nil => exact (Nat.zero_add _).symm
  | cons c left ih => rw [List.cons_append, byteLength_cons, byteLength_cons, ih, Nat.add_assoc]

theorem length_le_byteLength (text : List Char) : text.length ≤ byteLength text := by
  induction text with
  | nil => exact Nat.le_refl 0
  | cons c text ih =>
      have positive := c.utf8Size_pos
      rw [List.length_cons, byteLength_cons]
      omega

end SnippetAudit.Text
