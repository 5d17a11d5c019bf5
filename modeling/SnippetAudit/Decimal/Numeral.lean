import SnippetAudit.Decimal.Shortest

/-!
Numbers as they are spelled, and their value as doubles.

A double is spelled with the fewest digits that read back, always with a fraction or an exponent.
Reading rounds to the nearest double; what is too large for a double has no value.
-/

set_option autoImplicit false

namespace SnippetAudit

/-- The spelling of a number: sign, digits before and behind the point, and the exponent with its
sign. Empty `fraction` means that there is no point. -/
structure Numeral where
  negative : Bool := false
  whole : List Char
  fraction : List Char := []
  exponent : Option (Bool × List Char) := none
  deriving DecidableEq, Repr

namespace Numeral

/-- The text of a numeral. An exponent carries its sign always. -/
def spell (numeral : Numeral) : List Char :=
  let sign := if numeral.negative then ['-'] else []
  let fraction := if numeral.fraction.isEmpty then [] else '.' :: numeral.fraction
  let exponent :=
    match numeral.exponent with
    | none => []
    | some (negative, digits) => 'e' :: (if negative then '-' else '+') :: digits
  sign ++ numeral.whole ++ fraction ++ exponent

def digitsOf (n : Nat) : List Char :=
  Nat.toDigits 10 n

/-- The number that digits stand for. -/
def valueOf (digits : List Char) : Nat :=
  digits.foldl (fun value c => 10 * value + (c.toNat - 48)) 0

def ofNat (n : Nat) : Numeral where
  whole := digitsOf n

/-- The number, if it is spelled without sign, point and exponent. -/
def toNat? (numeral : Numeral) : Option Nat :=
  if !numeral.negative && numeral.fraction.isEmpty && numeral.exponent.isNone then
    some (valueOf numeral.whole)
  else none

/-- Where the spelling of doubles turns from positional notation to an exponent: values from
`10 ^ lowest` up to below `10 ^ (highest + 1)` are positional. -/
def lowestPositional : Int := -5
def highestPositional : Int := 15

/-- Spells `digits * 10 ^ power`. -/
def ofScaled (negative : Bool) (scaled : Decimal.Scaled) : Numeral :=
  let digits := digitsOf scaled.digits
  let leading := scaled.power + digits.length - 1
  if leading < lowestPositional || highestPositional < leading then
    { negative
      whole := digits.take 1
      fraction := digits.drop 1
      exponent := some (leading < 0, digitsOf leading.natAbs) }
  else if 0 ≤ scaled.power then
    { negative, whole := digits ++ List.replicate scaled.power.toNat '0', fraction := ['0'] }
  else if 0 ≤ leading then
    { negative
      whole := digits.take (leading.toNat + 1)
      fraction := digits.drop (leading.toNat + 1) }
  else
    { negative
      whole := ['0']
      fraction := List.replicate ((-leading).toNat - 1) '0' ++ digits }

/-- The shortest spelling of a double, if it is finite. -/
def ofFloat? (x : Float) : Option Numeral :=
  match Decimal.Reading.ofFloat x with
  | .finite value =>
      if value.mantissa = 0 then
        some { negative := value.negative, whole := ['0'], fraction := ['0'] }
      else some (ofScaled value.negative (Decimal.shortest value))
  | _ => none

/-- Beyond this many places from the point a number is zero or too large for a double. -/
def farPlaces : Int := 400

/-- The value of a numeral as a double, if it is in range. Too small a number is zero. -/
def toFloat? (numeral : Numeral) : Option Float :=
  let digits := valueOf (numeral.whole ++ numeral.fraction)
  let exponent : Int :=
    match numeral.exponent with
    | none => 0
    | some (negative, digits) => if negative then -(valueOf digits : Int) else valueOf digits
  let power := exponent - numeral.fraction.length
  let places := power + Decimal.digitCount digits
  let magnitude : Option Float :=
    if digits = 0 || places < -farPlaces then some 0.0
    else if farPlaces < places then none
    else
      let value := Float.ofScientific digits (power < 0) power.natAbs
      if value.isInf then none else some value
  magnitude.map fun value => if numeral.negative then -value else value

end Numeral

namespace Decimal

/-- The text of any double: its shortest spelling, or a word. -/
def text (x : Float) : String :=
  match Reading.ofFloat x with
  | .infinite negative => if negative then "-inf" else "inf"
  | .notANumber => "NaN"
  | .finite _ => ((Numeral.ofFloat? x).map fun numeral => String.ofList numeral.spell).getD ""

/-- The text of a double with two decimals, rounded from its exact value, a half to the even
neighbour. -/
def twoPlaces (x : Float) : String :=
  match Reading.ofFloat x with
  | .infinite negative => if negative then "-inf" else "inf"
  | .notANumber => "NaN"
  | .finite value =>
      let (num, den) := value.ratio
      let hundredths := roundDiv (100 * num) den
      let sign := if value.negative then ['-'] else []
      let cents := hundredths % 100
      let fraction := Numeral.digitsOf (cents / 10) ++ Numeral.digitsOf (cents % 10)
      String.ofList (sign ++ Numeral.digitsOf (hundredths / 100) ++ '.' :: fraction)

end Decimal

end SnippetAudit
