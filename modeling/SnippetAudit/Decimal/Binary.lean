/-!
Doubles taken apart: sign, integer mantissa and power of two, all exact.
-/

set_option autoImplicit false

namespace SnippetAudit.Decimal

/-- The value of a finite double: `mantissa * 2 ^ exponent`, or its negation. `isLowest` tells a
normal mantissa with no set bit but the leading one: the doubles below it are then twice as close
as those above. -/
structure Dyadic where
  negative : Bool
  mantissa : Nat
  exponent : Int
  isLowest : Bool
  deriving DecidableEq, Repr

/-- What a double stands for. -/
inductive Reading where
  | finite (value : Dyadic)
  | infinite (negative : Bool)
  | notANumber
  deriving DecidableEq, Repr

/-- The weight of the sign bit: 63 bits are below it. -/
def signWeight : Nat := 0x8000000000000000

/-- The weight of the lowest exponent bit: the 52 bits of the fraction are below it. -/
def exponentWeight : Nat := 0x10000000000000

/-- The exponent field that marks infinities and not-a-number, all of its 11 bits set. -/
def fullField : Nat := 0x7FF

/-- The meaning of the 64 bits of a double. -/
def Reading.ofBits (bits : Nat) : Reading :=
  let negative : Bool := bits / signWeight % 2 = 1
  let field : Nat := bits / exponentWeight % (fullField + 1)
  let fraction : Nat := bits % exponentWeight
  if field = fullField then
    if fraction = 0 then .infinite negative else .notANumber
  else if field = 0 then
    .finite { negative, mantissa := fraction, exponent := -1074, isLowest := false }
  else
    .finite
      { negative
        mantissa := exponentWeight + fraction
        exponent := (field : Int) - 1075
        isLowest := fraction = 0 && field ≠ 1 }

def Reading.ofFloat (x : Float) : Reading :=
  ofBits x.toBits.toNat

/-- The total order of the patterns of doubles as an order of integers: negative values below
positive ones, `-0.0` below `0.0`, infinities outside the finite values, and not-a-number outside
of all on the side of its sign. -/
def keyOfBits (bits : Nat) : Int :=
  if bits < signWeight then bits else (signWeight : Int) - bits - 1

/-- Numerator and denominator of `mantissa * 2 ^ exponent`. -/
def Dyadic.ratio (value : Dyadic) : Nat × Nat :=
  (value.mantissa * Nat.pow 2 value.exponent.toNat, Nat.pow 2 (-value.exponent).toNat)

/-- The number of decimal digits, none for zero. -/
def digitCount (n : Nat) : Nat :=
  if n = 0 then 0 else (Nat.toDigits 10 n).length

/-- A quotient rounded to the nearest integer, a half to the even neighbour. -/
def roundDiv (num den : Nat) : Nat :=
  let low := num / den
  let twice := 2 * (num % den)
  if twice < den then low
  else if den < twice then low + 1
  else if low % 2 = 0 then low
  else low + 1

end SnippetAudit.Decimal
