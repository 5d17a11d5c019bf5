import Mathlib.Data.List.Nodup
import SnippetAudit.Proofs.Text.Letters
import SnippetAudit.Proofs.Text.Lines
import SnippetAudit.Text.Blank
import SnippetAudit.Text.Occurrences

/-!
Recodings: maps of characters that keep ASCII as it is and all other characters apart.

A recoding goes through whatever looks at ASCII characters only: lines, blank lines, lower case, and
the occurrences of ASCII words.
-/

set_option autoImplicit false

namespace SnippetAudit.Text

def isAscii (c : Char) : Bool :=
  c.toNat < 128

/-- A map of the characters beyond ASCII among themselves that gives different characters different
images. The lengths of their UTF-8 forms may change. -/
structure Recoding where
  image : Char → Char
  ascii {c : Char} : isAscii c = true → image c = c
  beyond {c : Char} : isAscii c = false → isAscii (image c) = false
  apart {c d : Char} : isAscii c = false → isAscii d = false → image c = image d → c = d

namespace Recoding

/-- Two characters take each other's place. -/
def exchange (first second : Char) (firstBeyond : isAscii first = false)
    (secondBeyond : isAscii second = false) : Recoding where
  image c := if c = first then second else if c = second then first else c
  ascii := by grind
  beyond := by grind
  apart := by grind

variable (recoding : Recoding)

def onText (text : List Char) : List Char :=
  text.map recoding.image

def onString (text : String) : String :=
  String.ofList (recoding.onText text.toList)

/-! Characters -/

private theorem isAscii_image (c : Char) : isAscii (recoding.image c) = isAscii c := by
  cases kind : isAscii c with
  | true => rw [recoding.ascii kind, kind]
  | false => exact recoding.beyond kind

theorem injective : Function.Injective recoding.image := by
  intro c d same
  have kinds : isAscii c = isAscii d := by
    rw [← recoding.isAscii_image c, same, recoding.isAscii_image d]
  cases kind : isAscii c with
  | true => rwa [recoding.ascii kind, recoding.ascii (kinds ▸ kind)] at same
  | false => exact recoding.apart kind (kinds ▸ kind) same

theorem image_eq_iff {d : Char} (ascii : isAscii d = true) (c : Char) :
    recoding.image c = d ↔ c = d := by
  constructor
  · intro same
    exact recoding.injective (same.trans (recoding.ascii ascii).symm)
  · intro same
    rw [same]
    exact recoding.ascii ascii

theorem onText_eq_self {text : List Char} (ascii : ∀ c ∈ text, isAscii c = true) :
    recoding.onText text = text := by
  have fixed : ∀ c ∈ text, recoding.image c = c := fun c member => recoding.ascii (ascii c member)
  rw [onText, List.map_congr_left fixed, List.map_id']

theorem onText_injective : Function.Injective recoding.onText :=
  List.map_injective_iff.mpr recoding.injective

/-! Lines -/

theorem lines_onText (text : List Char) :
    lines (recoding.onText text) = (lines text).map recoding.onText := by
  induction text with
  | nil => rfl
  | cons c text ih =>
      have feed := recoding.image_eq_iff (by decide : isAscii '\n' = true) c
      rcases lines_cons_cases c text with ⟨rfl, pushed⟩ | ⟨line, rest, noFeed, split, pushed⟩
      · rw [pushed, List.map_cons, ← ih, onText, List.map_cons, feed.mpr rfl]
        rfl
      · rcases lines_cons_cases (recoding.image c) (recoding.onText text) with
          ⟨isFeed, _⟩ | ⟨line', rest', _, split', pushed'⟩
        · exact absurd (feed.mp isFeed) noFeed
        · rw [split', split, List.map_cons] at ih
          obtain ⟨rfl, rfl⟩ := List.cons.inj ih
          rw [pushed]
          exact pushed'

private theorem isBlankChar_image (c : Char) : isBlankChar (recoding.image c) = isBlankChar c := by
  simp only [isBlankChar, recoding.image_eq_iff (by decide : isAscii ' ' = true),
    recoding.image_eq_iff (by decide : isAscii '\t' = true),
    recoding.image_eq_iff (by decide : isAscii '\n' = true),
    recoding.image_eq_iff (by decide : isAscii '\r' = true),
    recoding.image_eq_iff (by decide : isAscii '\x00' = true),
    recoding.image_eq_iff (by decide : isAscii '\x0b' = true)]

private theorem isBlankLine_onText (line : List Char) :
    isBlankLine (recoding.onText line) = isBlankLine line := by
  rw [isBlankLine, isBlankLine, onText, List.all_map]
  exact List.all_congr rfl recoding.isBlankChar_image

theorem solidLines_onText (text : List Char) :
    solidLines (recoding.onText text) = (solidLines text).map recoding.onText := by
  rw [solidLines, solidLines, recoding.lines_onText, List.filter_map]
  congr 1
  apply List.filter_congr
  intro line _
  exact congrArg (!·) (recoding.isBlankLine_onText line)

/-! Lower case and keywords -/

/-- Lower case stays within ASCII and changes nothing beyond it. -/
theorem toLower_eq_or_ascii (c : Char) :
    c.toLower = c ∨ isAscii c = true ∧ isAscii c.toLower = true := by
  rcases toLower_cases c with ⟨upper, moved⟩ | ⟨_, kept⟩
  · have range := isUpper_iff.mp upper
    refine .inr ⟨decide_eq_true ?_, decide_eq_true ?_⟩
    · omega
    · omega
  · exact .inl kept

private theorem toLower_image (c : Char) :
    (recoding.image c).toLower = recoding.image c.toLower := by
  cases kind : isAscii c with
  | true =>
      have lowered : isAscii c.toLower = true := by
        rcases toLower_eq_or_ascii c with same | ⟨_, ascii⟩
        · rw [same, kind]
        · exact ascii
      rw [recoding.ascii kind, recoding.ascii lowered]
  | false =>
      have same : ∀ d, isAscii d = false → d.toLower = d := by
        intro d beyond
        rcases toLower_eq_or_ascii d with same | ⟨ascii, _⟩
        · exact same
        · rw [beyond] at ascii
          cases ascii
      rw [same c kind, same _ (recoding.beyond kind)]

theorem asciiLower_onText (text : List Char) :
    asciiLower (recoding.onText text) = recoding.onText (asciiLower text) := by
  rw [asciiLower, asciiLower, onText, onText, List.map_map, List.map_map]
  exact List.map_congr_left fun c _ => recoding.toLower_image c

private theorem isPrefixOf_onText {word : List Char} (ascii : ∀ c ∈ word, isAscii c = true)
    (text : List Char) : word.isPrefixOf (recoding.onText text) = word.isPrefixOf text := by
  induction word generalizing text with
  | nil => rfl
  | cons d word ih =>
      rw [List.forall_mem_cons] at ascii
      cases text with
      | nil => rfl
      | cons c text =>
          have same : (d == recoding.image c) = (d == c) := by
            apply Bool.eq_iff_iff.mpr
            rw [beq_iff_eq, beq_iff_eq, eq_comm, recoding.image_eq_iff ascii.1, eq_comm]
          change (d == recoding.image c && word.isPrefixOf (recoding.onText text)) = _
          rw [same, ih ascii.2]
          rfl

private theorem countFrom_onText {keyword : List Char} (ascii : ∀ c ∈ keyword, isAscii c = true)
    (found skip : Nat) (text : List Char) :
    countFrom keyword found skip (recoding.onText text) = countFrom keyword found skip text := by
  induction text generalizing found skip with
  | nil => rfl
  | cons c text ih =>
      cases skip with
      | succ skip => exact ih found skip
      | zero =>
          have starts := recoding.isPrefixOf_onText ascii (c :: text)
          rw [onText, List.map_cons] at starts ⊢
          rw [countFrom, countFrom, starts]
          split
          · exact ih _ _
          · exact ih _ _

theorem countOccurrences_onText {keyword : List Char}
    (ascii : ∀ c ∈ keyword, isAscii c = true) (text : List Char) :
    countOccurrences keyword (recoding.onText text) = countOccurrences keyword text := by
  rw [countOccurrences, countOccurrences, recoding.countFrom_onText ascii, onText, List.length_map]

end Recoding

end SnippetAudit.Text
