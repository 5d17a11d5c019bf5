import SnippetAudit.Decimal.Binary

/-!
The shortest decimal that reads back as a given double.

The reals that round to a double form an interval around it, whose ends belong to it when the
mantissa is even. On the grid of decimals with one digit, then two, and so on, the two neighbours
of the double are tried; the first grid that has one inside the interval gives the answer, the
nearer neighbour if both are inside.
-/

set_option autoImplicit false

namespace SnippetAudit.Decimal

/-- The decimal `digits * 10 ^ power`. -/
structure Scaled where
  digits : Nat
  power : Int
  deriving DecidableEq, Repr

/-- The largest power of ten that is not above `num / den`, both positive. -/
def leadingPower (num den : Nat) : Int :=
  if den ≤ num then (digitCount (num / den) : Int) - 1
  else -((digitCount ((den - 1) / num) : Nat) : Int)

/-- `10 ^ power` as numerator and denominator. -/
def powerRatio (power : Int) : Nat × Nat :=
  (Nat.pow 10 power.toNat, Nat.pow 10 (-power).toNat)

/-- Whether `digits * 10 ^ power` rounds to the positive double. All is compared in quarters of the
last place: the interval reaches two of them up, and two down or, below a lowest mantissa, one. -/
def roundsTo (value : Dyadic) (candidate : Scaled) : Bool :=
  let (up, down) := powerRatio candidate.power
  let (num, den) := { value with mantissa := 1, exponent := value.exponent - 2 : Dyadic }.ratio
  let point := candidate.digits * up * den
  let unit := num * down
  let low := (4 * value.mantissa - if value.isLowest then 1 else 2) * unit
  let high := (4 * value.mantissa + 2) * unit
  if value.mantissa % 2 = 0 then low ≤ point && point ≤ high
  else low < point && point < high

/-- The best decimal with this many digits, if one rounds to the double. -/
def onGrid? (value : Dyadic) (count : Nat) : Option Scaled :=
  let (num, den) := value.ratio
  let power := leadingPower num den - count + 1
  let (up, down) := powerRatio power
  let scaledNum := num * down
  let scaledDen := den * up
  let below : Scaled := { digits := scaledNum / scaledDen, power }
  let above : Scaled := { below with digits := below.digits + 1 }
  let nearest : Scaled := { below with digits := roundDiv scaledNum scaledDen }
  if roundsTo value nearest then some nearest
  else if roundsTo value below then some below
  else if roundsTo value above then some above
  else none

/-- Drops trailing zeros of the digits; `budget` bounds how many. -/
def Scaled.strip (scaled : Scaled) : Nat → Scaled
  | 0 => scaled
  | budget + 1 =>
      if scaled.digits ≠ 0 && scaled.digits % 10 = 0 then
        Scaled.strip { digits := scaled.digits / 10, power := scaled.power + 1 } budget
      else scaled

/-- The shortest decimal for a positive double. Seventeen digits are always enough. -/
def shortest (value : Dyadic) : Scaled :=
  match (List.range 17).findSome? fun k => onGrid? value (k + 1) with
  | some scaled => scaled.strip 17
  | none => { digits := 0, power := 0 }

end SnippetAudit.Decimal
