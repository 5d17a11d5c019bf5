import SnippetAudit.Decimal.Binary

/-!
Scores: doubles by their bits.
-/

set_option autoImplicit false

namespace SnippetAudit

/-- A score: a double, told by its 64 bits. Scores that are no numbers differ in their bits, and a
`Float` would not tell them apart. -/
structure Score where
  bits : UInt64
  deriving DecidableEq, Repr

namespace Score

def ofFloat (x : Float) : Score where
  bits := x.toBits

/-- The number that a score is. -/
def toFloat (score : Score) : Float :=
  .ofBits score.bits

/-- The place of a score in the total order of doubles. -/
def orderKey (score : Score) : Int :=
  Decimal.keyOfBits score.bits.toNat

end Score

end SnippetAudit
