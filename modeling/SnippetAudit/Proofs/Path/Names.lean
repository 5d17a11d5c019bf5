import Mathlib.Data.List.TakeWhile
import Mathlib.Tactic.SplitIfs
import SnippetAudit.Language
import SnippetAudit.Proofs.Text.Decoding

/-!
The names and extensions that paths end with.

Whatever a directory is called, the path of an entry ends with the entry's name, and so its language
depends on that name only.
-/

set_option autoImplicit false

namespace SnippetAudit

namespace Path

/-! Pieces -/

private theorem pieces_cons_of_ne {byte : UInt8} (other : byte ≠ slash) {path piece : List UInt8}
    {rest : List (List UInt8)} (split : pieces path = piece :: rest) :
    pieces (byte :: path) = (byte :: piece) :: rest := by
  rw [pieces] at split
  rw [pieces, List.foldr_cons, if_neg other, split]

theorem exists_pieces_eq_cons (path : List UInt8) :
    ∃ piece rest, pieces path = piece :: rest := by
  cases path with
  | nil => exact ⟨[], [], rfl⟩
  | cons byte path =>
      by_cases divides : byte = slash
      · subst divides
        exact ⟨[], pieces path, rfl⟩
      · obtain ⟨piece, rest, split⟩ := exists_pieces_eq_cons path
        exact ⟨byte :: piece, rest, pieces_cons_of_ne divides split⟩

private theorem pieces_append_slash (left right : List UInt8) :
    pieces (left ++ slash :: right) = pieces left ++ pieces right := by
  induction left with
  | nil => rfl
  | cons byte left ih =>
      by_cases divides : byte = slash
      · subst divides
        exact congrArg ([] :: ·) ih
      · obtain ⟨piece, rest, split⟩ := exists_pieces_eq_cons left
        rw [split] at ih
        rw [pieces_cons_of_ne divides split, List.cons_append, pieces_cons_of_ne divides ih]
        rfl

private theorem pieces_of_no_slash {label : List UInt8} (solid : slash ∉ label) :
    pieces label = [label] := by
  induction label with
  | nil => rfl
  | cons byte label ih =>
      have other : byte ≠ slash := fun same => solid (by simp [same])
      exact pieces_cons_of_ne other (ih fun inside => solid (List.mem_cons_of_mem byte inside))

/-! Names of entries -/

/-- What an entry of a directory may be called. -/
structure IsName (label : List UInt8) : Prop where
  nonempty : label ≠ []
  solid : slash ∉ label
  notHere : label ≠ [dot]
  notAbove : label ≠ [dot, dot]

instance (label : List UInt8) : Decidable (IsName label) :=
  decidable_of_iff (label ≠ [] ∧ slash ∉ label ∧ label ≠ [dot] ∧ label ≠ [dot, dot])
    ⟨fun holds => ⟨holds.1, holds.2.1, holds.2.2.1, holds.2.2.2⟩,
      fun isName => ⟨isName.nonempty, isName.solid, isName.notHere, isName.notAbove⟩⟩

private theorem join_cases (directory label : List UInt8) :
    join directory label = label ∨ ∃ start, join directory label = start ++ slash :: label := by
  rcases List.eq_nil_or_concat directory with rfl | ⟨start, last, rfl⟩
  · exact .inl rfl
  · rw [join, List.concat_eq_append, List.getLast?_concat]
    by_cases divides : last = slash
    · exact .inr ⟨start, by simp [divides]⟩
    · exact .inr ⟨start ++ [last], by simp [divides]⟩

private theorem getLast?_names_join (directory : List UInt8) {label : List UInt8}
    (isName : IsName label) : (names (join directory label)).getLast? = some label := by
  rw [names]
  rcases join_cases directory label with alone | ⟨start, behind⟩
  · rw [alone, pieces_of_no_slash isName.solid]
    simp [isName.nonempty]
  · obtain ⟨first, rest, split⟩ := exists_pieces_eq_cons start
    rw [behind, pieces_append_slash, split, pieces_of_no_slash isName.solid]
    simp [isName.nonempty, isName.notHere]

private theorem fileName?_join (directory : List UInt8) {label : List UInt8}
    (isName : IsName label) : fileName? (join directory label) = some label := by
  rw [fileName?, getLast?_names_join directory isName]
  simp [isName.notHere, isName.notAbove]

/-! Extensions -/

theorem extension?_append {extension : List UInt8} (plain : dot ∉ extension)
    (stem : List UInt8) :
    extension? (stem ++ dot :: extension) = if stem = [] then none else some extension := by
  have plainly : ∀ byte ∈ extension.reverse, decide (byte ≠ dot) = true := by
    intro byte inside
    refine decide_eq_true fun same => plain ?_
    rwa [← same, ← List.mem_reverse]
  have backwards : (stem ++ dot :: extension).reverse =
      extension.reverse ++ dot :: stem.reverse := by
    simp
  rw [extension?, backwards, List.dropWhile_append_of_pos plainly,
    List.takeWhile_append_of_pos plainly]
  rcases List.eq_nil_or_concat stem with rfl | ⟨start, byte, rfl⟩ <;> simp

private theorem extension?_of_no_dot {label : List UInt8} (plain : dot ∉ label) :
    extension? label = none := by
  have plainly : label.reverse.dropWhile (· ≠ dot) = [] := by
    rw [List.dropWhile_eq_nil_iff]
    intro byte inside
    refine decide_eq_true fun same => plain ?_
    rwa [← same, ← List.mem_reverse]
  rw [extension?, plainly]

/-- The last dot of a name divides it, unless nothing stands before that dot. -/
theorem extension?_eq_some_iff {label extension : List UInt8} :
    extension? label = some extension ↔
      dot ∉ extension ∧ ∃ stem, stem ≠ [] ∧ label = stem ++ dot :: extension := by
  constructor
  · intro found
    by_cases dotted : dot ∈ label
    · obtain ⟨behind, before, cut, plain⟩ :=
        List.eq_append_cons_of_mem (List.mem_reverse.mpr dotted)
      have split : label = before.reverse ++ dot :: behind.reverse := by
        rw [← List.reverse_inj, cut]
        simp
      rw [split, extension?_append (by simpa using plain)] at found
      split_ifs at found with nothing
      cases found
      exact ⟨by simpa using plain, _, nothing, split⟩
    · rw [extension?_of_no_dot dotted] at found
      cases found
  · rintro ⟨plain, stem, nonempty, rfl⟩
    rw [extension?_append plain, if_neg nonempty]

end Path

namespace Language

/-- A name that ends with a dot, behind more, and the extension of some language. -/
def Recognized (label : List UInt8) : Prop :=
  ∃ stem extension, stem ≠ [] ∧ label = stem ++ Path.dot :: Text.Utf8.encode extension ∧
    '.' ∉ extension ∧
    ∃ language, (String.ofList (Text.asciiLower extension), language) ∈ extensions

private theorem isSome_ofExtension?_iff {extension : List Char} :
    (ofExtension? (String.ofList extension)).isSome = true ↔
      ∃ language, (String.ofList (Text.asciiLower extension), language) ∈ extensions := by
  rw [ofExtension?, String.toList_ofList, List.lookup_isSome_iff]
  simp

theorem dot_mem_encode_iff {text : List Char} :
    Path.dot ∈ Text.Utf8.encode text ↔ '.' ∈ text := by
  have same : (Text.Utf8.encode text).count Path.dot = text.count '.' :=
    @Text.Utf8.count_encode '.' (by decide) text
  rw [← List.count_pos_iff, same, List.count_pos_iff]

theorem isSome_ofPath?_join (directory : List UInt8) {label : List UInt8}
    (isName : Path.IsName label) :
    (ofPath? (Path.join directory label)).isSome = true ↔ Recognized label := by
  rw [ofPath?, Path.fileName?_join directory isName, Option.bind_eq_bind, Option.bind_some]
  simp only [Option.bind_eq_bind, Option.isSome_bind, Option.any_eq_true,
    Path.extension?_eq_some_iff, Text.Utf8.decode?_eq_some_iff, isSome_ofExtension?_iff]
  constructor
  · rintro ⟨_, ⟨plain, stem, nonempty, split⟩, extension, rfl, known⟩
    exact ⟨stem, extension, nonempty, split, fun dotted => plain (dot_mem_encode_iff.mpr dotted),
      known⟩
  · rintro ⟨stem, extension, nonempty, split, plain, known⟩
    exact ⟨_, ⟨fun dotted => plain (dot_mem_encode_iff.mp dotted), stem, nonempty, split⟩,
      extension, rfl, known⟩

end Language

end SnippetAudit
