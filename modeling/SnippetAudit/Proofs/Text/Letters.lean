/-!
Letters of ASCII and their lower case.

Letters are told by ranges of code points. Lower case moves the capital ones by 32 places and leaves
all other characters as they are.
-/

set_option autoImplicit false

namespace SnippetAudit.Text

theorem isUpper_iff {c : Char} : c.isUpper = true ↔ 65 ≤ c.toNat ∧ c.toNat ≤ 90 := by
  change decide (c.val ≥ 'A'.val ∧ c.val ≤ 'Z'.val) = true ↔ _
  rw [decide_eq_true_eq, ge_iff_le, UInt32.le_iff_toNat_le, UInt32.le_iff_toNat_le]
  rfl

theorem isLower_iff {c : Char} : c.isLower = true ↔ 97 ≤ c.toNat ∧ c.toNat ≤ 122 := by
  change (decide (c.val ≥ 'a'.val) && decide (c.val ≤ 'z'.val)) = true ↔ _
  rw [Bool.and_eq_true, decide_eq_true_eq, decide_eq_true_eq, ge_iff_le, UInt32.le_iff_toNat_le,
    UInt32.le_iff_toNat_le]
  rfl

theorem isAlpha_iff {c : Char} :
    c.isAlpha = true ↔ 65 ≤ c.toNat ∧ c.toNat ≤ 90 ∨ 97 ≤ c.toNat ∧ c.toNat ≤ 122 :=
  Bool.or_eq_true_iff.trans (or_congr isUpper_iff isLower_iff)

/-- Letters in upper case are moved by 32 places, and all else stays. -/
theorem toLower_cases (c : Char) :
    c.isUpper = true ∧ c.toLower.toNat = c.toNat + 32 ∨ c.isUpper = false ∧ c.toLower = c := by
  cases upper : c.isUpper with
  | true =>
      have inside : c.val ≥ 'A'.val ∧ c.val ≤ 'Z'.val := of_decide_eq_true upper
      have high := (isUpper_iff.mp upper).2
      have moved : c.toLower.val = c.val + 32 := congrArg Char.val (dif_pos inside)
      refine .inl ⟨rfl, ?_⟩
      change c.toLower.val.toNat = c.val.toNat + 32
      rw [moved, UInt32.toNat_add, Nat.mod_eq_of_lt]
      · rfl
      · change c.toNat + 32 < 2 ^ 32
        omega
  | false => exact .inr ⟨rfl, dif_neg (of_decide_eq_false upper)⟩

theorem toLower_toLower (c : Char) : c.toLower.toLower = c.toLower := by
  rcases toLower_cases c with ⟨upper, moved⟩ | ⟨_, kept⟩
  · rcases toLower_cases c.toLower with ⟨again, _⟩ | ⟨_, kept⟩
    · have := isUpper_iff.mp upper
      have := isUpper_iff.mp again
      omega
    · exact kept
  · rw [kept, kept]

/-- Only a letter is the lower case of another character. -/
theorem toLower_eq_iff {c d : Char} (sign : d.isAlpha = false) : c.toLower = d ↔ c = d := by
  have outside := mt isAlpha_iff.mpr (Bool.eq_false_iff.mp sign)
  rcases toLower_cases c with ⟨upper, moved⟩ | ⟨_, kept⟩
  · have range := isUpper_iff.mp upper
    refine iff_of_false ?_ ?_
    · rintro rfl
      omega
    · rintro rfl
      omega
  · rw [kept]

end SnippetAudit.Text
