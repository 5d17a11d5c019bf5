import SnippetAudit.Digest
import SnippetAudit.Proofs.Text.Lines

/-!
The content hash and line endings.

A text is normalized by one pass that writes a line feed for each pair of carriage return and line
feed. Lines that are joined with either ending at each joint are normalized to the same text, from
which the lines can be told again. So the hash does not see which endings were chosen, and different
lines are never hashed from the same text.
-/

set_option autoImplicit false

namespace SnippetAudit

namespace Text

/-! One pass -/

/-- Goes through a text and writes a line feed for each pair of carriage return and line feed. -/
def rewritePairs : List Char → List Char
  | '\r' :: '\n' :: rest => '\n' :: rewritePairs rest
  | c :: rest => c :: rewritePairs rest
  | [] => []

private theorem withNext_cons (c : Char) (text : List Char) :
    withNext (c :: text) = (c, text.head?) :: withNext text := by
  cases text <;> rfl

theorem unixEndings_cons (c : Char) (text : List Char) :
    unixEndings (c :: text) =
      if c = '\r' ∧ text.head? = some '\n' then unixEndings text else c :: unixEndings text := by
  rw [unixEndings, withNext_cons]
  by_cases pair : c = '\r' ∧ text.head? = some '\n'
  · rw [if_pos pair]
    exact List.filterMap_cons_none (by simp [pair])
  · rw [if_neg pair]
    exact List.filterMap_cons_some (by simpa using pair)

private theorem unixEndings_pair (rest : List Char) :
    unixEndings ('\r' :: '\n' :: rest) = '\n' :: unixEndings rest := by
  rw [unixEndings_cons, if_pos ⟨rfl, rfl⟩, unixEndings_cons, if_neg (by simp)]

private theorem unixEndings_eq_rewritePairs (text : List Char) :
    unixEndings text = rewritePairs text := by
  fun_induction rewritePairs text with
  | case1 rest ih => rw [unixEndings_pair, ih]
  | case2 c rest notPair ih =>
      have single : ¬ (c = '\r' ∧ rest.head? = some '\n') := by
        rintro ⟨rfl, feed⟩
        obtain ⟨tail, rfl⟩ := List.head?_eq_some_iff.mp feed
        exact notPair tail rfl rfl
      rw [unixEndings_cons, if_neg single, ih]
  | case3 => rfl

/-- A line that does not end in a carriage return stays as it is, whatever follows it. -/
theorem unixEndings_append {line : List Char} (noFeed : '\n' ∉ line)
    (noReturn : line.getLast? ≠ some '\r') (rest : List Char) :
    unixEndings (line ++ rest) = line ++ unixEndings rest := by
  induction line with
  | nil => rfl
  | cons c line ih =>
      obtain ⟨_, othersNoFeed⟩ := not_or.mp (mt List.mem_cons.mpr noFeed)
      cases line with
      | nil =>
          have single : c ≠ '\r' := fun same => noReturn (congrArg some same)
          rw [List.singleton_append, List.singleton_append, unixEndings_cons,
            if_neg fun pair => single pair.1]
      | cons d line =>
          have single : some d ≠ some '\n' :=
            fun same => othersNoFeed (Option.some.inj same ▸ List.mem_cons_self)
          rw [List.getLast?_cons_cons] at noReturn
          rw [List.cons_append, unixEndings_cons, ih othersNoFeed noReturn,
            if_neg fun pair => single pair.2]
          rfl

private theorem unixEndings_of_noFeed {line : List Char} (noFeed : '\n' ∉ line) :
    unixEndings line = line := by
  induction line with
  | nil => rfl
  | cons c line ih =>
      obtain ⟨_, othersNoFeed⟩ := not_or.mp (mt List.mem_cons.mpr noFeed)
      have single : line.head? ≠ some '\n' :=
        fun feed => othersNoFeed (List.mem_of_head? feed)
      rw [unixEndings_cons, if_neg fun pair => single pair.2, ih othersNoFeed]

/-! Joined lines -/

/-- What stands between two lines. -/
inductive Ending where
  | feed
  | returnFeed
  deriving DecidableEq, Repr

def Ending.text : Ending → List Char
  | .feed => ['\n']
  | .returnFeed => ['\r', '\n']

private theorem unixEndings_ending (ending : Ending) (rest : List Char) :
    unixEndings (ending.text ++ rest) = '\n' :: unixEndings rest := by
  cases ending with
  | feed => exact (unixEndings_cons '\n' rest).trans (if_neg (by simp))
  | returnFeed => exact unixEndings_pair rest

/-- Joins rows, with an ending of its own at each joint. -/
def join (endings : Nat → Ending) : List (List Char) → List Char
  | [] => []
  | [row] => row
  | row :: next :: rows =>
      row ++ ((endings 0).text ++ join (fun joint => endings (joint + 1)) (next :: rows))

/-- Rows that either ending can join without a change to them: there is at least one, none holds a
line feed, and none but the last ends in a carriage return. -/
structure Rows where
  rows : List (List Char)
  nonempty : rows ≠ []
  noFeed : ∀ row ∈ rows, '\n' ∉ row
  noReturn : ∀ row ∈ rows.dropLast, row.getLast? ≠ .some '\r'

/-- Whatever the endings are, line feeds take their places. -/
theorem unixEndings_join (endings : Nat → Ending) {rows : List (List Char)}
    (noFeed : ∀ row ∈ rows, '\n' ∉ row)
    (noReturn : ∀ row ∈ rows.dropLast, row.getLast? ≠ some '\r') :
    unixEndings (join endings rows) = ['\n'].intercalate rows := by
  fun_induction join endings rows with
  | case1 => rfl
  | case2 endings row =>
      rw [unixEndings_of_noFeed (noFeed row List.mem_cons_self), List.intercalate_singleton]
  | case3 endings row next rows ih =>
      obtain ⟨rowNoFeed, othersNoFeed⟩ := List.forall_mem_cons.mp noFeed
      rw [List.dropLast_cons_cons] at noReturn
      obtain ⟨rowNoReturn, othersNoReturn⟩ := List.forall_mem_cons.mp noReturn
      rw [unixEndings_append rowNoFeed rowNoReturn, unixEndings_ending,
        ih othersNoFeed othersNoReturn, List.intercalate_cons_cons, List.append_assoc,
        List.singleton_append]

theorem Rows.unixEndings_join (lines : Rows) (endings : Nat → Ending) :
    unixEndings (join endings lines.rows) = ['\n'].intercalate lines.rows :=
  Text.unixEndings_join endings lines.noFeed lines.noReturn

/-- Rows are the lines of the normalized text. -/
theorem Rows.lines_unixEndings_join (lines : Rows) (endings : Nat → Ending) :
    Text.lines (unixEndings (join endings lines.rows)) = lines.rows := by
  rw [lines.unixEndings_join, lines_intercalate lines.nonempty lines.noFeed]

end Text

namespace Digest

open Text (Ending Rows join)

theorem normalize_join_eq_iff (first second : Rows) (endings others : Nat → Ending) :
    normalize (join endings first.rows) = normalize (join others second.rows) ↔
      first.rows = second.rows := by
  constructor
  · intro same
    rw [← first.lines_unixEndings_join endings, ← second.lines_unixEndings_join others]
    exact congrArg Text.lines same
  · intro same
    rw [normalize, normalize, first.unixEndings_join, second.unixEndings_join, same]

/-- What is hashed is the text after one pass over it that rewrites the pairs. Joined rows have the
same hash whichever ending stands at each joint, and are hashed from the same text as other joined
rows only if they are the same rows. -/
theorem ofText_join_and_normalize_join :
    (∀ text : String, ofText text =
      String.ofList (sha256 (String.ofList (Text.rewritePairs text.toList)).toUTF8.toList)) ∧
    ∀ (first second : Rows) (endings others : Nat → Ending),
      ofText (String.ofList (join endings first.rows)) =
        ofText (String.ofList (join others first.rows)) ∧
      (normalize (join endings first.rows) = normalize (join others second.rows) ↔
        first.rows = second.rows) := by
  refine ⟨?_, ?_⟩
  · intro text
    rw [ofText, normalize, Text.unixEndings_eq_rewritePairs]
  · intro first second endings others
    refine ⟨?_, normalize_join_eq_iff first second endings others⟩
    have same := (normalize_join_eq_iff first first endings others).mpr rfl
    rw [ofText, ofText, String.toList_ofList, String.toList_ofList, same]

/-- A carriage return inside a row and one at the end of the last, an empty row, and both
endings. -/
theorem ofText_join_mixed_endings :
    ofText "a\rb\r\n\nc\r" = ofText "a\rb\n\r\nc\r" ∧
      normalize "a\rb\r\n\nc\r".toList ≠ normalize "a\rb\n\nc".toList := by
  let first : Rows := ⟨[['a', '\r', 'b'], [], ['c', '\r']], by decide, by decide, by decide⟩
  let second : Rows := ⟨[['a', '\r', 'b'], [], ['c']], by decide, by decide, by decide⟩
  let endings : Nat → Ending := fun joint => if joint = 0 then .returnFeed else .feed
  let others : Nat → Ending := fun joint => if joint = 0 then .feed else .returnFeed
  obtain ⟨_, joined⟩ := ofText_join_and_normalize_join
  have differ : first.rows ≠ second.rows := by decide
  exact ⟨(joined first second endings others).1,
    mt (joined first second endings fun _ => .feed).2.mp differ⟩

end Digest

end SnippetAudit
