import SnippetAudit.Proofs.Decimal.TotalOrder
import SnippetAudit.Score

/-!
Scores and the numbers that they are.

Two scores with different bits may be the same `Float`, but only if neither is a number: a finite
score is told by its number. The order of scores is that of their bits and tells all of them apart.
-/

set_option autoImplicit false

namespace SnippetAudit.Score

open Float.Model Float.Model.UnpackedFloat

def isFinite (score : Score) : Bool :=
  score.toFloat.isFinite

/-- Only the bits of what is no number are changed on the way through a `Float`. -/
theorem ofFloat_toFloat {score : Score} (finite : score.isFinite = true) :
    ofFloat score.toFloat = score := by
  obtain ⟨bits⟩ := score
  have valid : Format.binary64.Valid bits.toBitVec := by
    refine ⟨fun full fraction => ?_⟩
    have unknown : UnpackedFloat.unpack Format.binary64 bits.toBitVec = .notANumber := by
      simp [UnpackedFloat.unpack, full, fraction]
    have same : Float.ofBits bits = .ofModel (.pack .notANumber) :=
      congrArg (fun unpacked => Float.ofModel (.pack unpacked)) unknown
    have infinite : (Float.ofModel (.pack .notANumber)).isFinite = false := by decide +kernel
    rw [isFinite, toFloat, same, infinite] at finite
    cases finite
  have kept : (Float.ofBits bits).toBits.toBitVec = bits.toBitVec := pack_unpack_of_valid valid
  exact congrArg Score.mk (UInt64.toBitVec_inj.mp kept)

/-- The keys are in the total order of the patterns of doubles. -/
theorem orderKey_lt_iff (left right : Score) :
    left.orderKey < right.orderKey ↔ Decimal.Precedes left.bits.toNat right.bits.toNat :=
  (Decimal.precedes_iff_keyOfBits_lt left.bits.toNat_lt right.bits.toNat_lt).symm

theorem orderKey_inj {left right : Score} : left.orderKey = right.orderKey ↔ left = right := by
  rw [orderKey, orderKey, Decimal.keyOfBits_inj, UInt64.toNat_inj]
  exact ⟨fun same => congrArg Score.mk same, congrArg Score.bits⟩

end SnippetAudit.Score
