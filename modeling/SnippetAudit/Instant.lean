import SnippetAudit.Decimal.Numeral
import SnippetAudit.Text.Blank

/-!
Instants of time, and their text in the form `2024-01-02T03:04:05.678Z`.

Reading is lenient: blanks may stand before each number, a number may have fewer digits, a blank
may stand for the `T`, and any offset from UTC may follow. Writing always gives UTC and as many
groups of three fractional digits as are needed.
-/

set_option autoImplicit false

namespace SnippetAudit

/-- Seconds since the start of 1970 in UTC, and nanoseconds. A leap second is the second before it
with a thousand million nanoseconds more. -/
structure Instant where
  seconds : Int
  nanos : Nat
  deriving DecidableEq, Repr

namespace Instant

/-- Whether one instant is before another. -/
def isBefore (left right : Instant) : Bool :=
  left.seconds < right.seconds || (left.seconds = right.seconds && left.nanos < right.nanos)

/-! The calendar -/

def isLeapYear (year : Int) : Bool :=
  year % 4 = 0 && (year % 100 ≠ 0 || year % 400 = 0)

def daysInMonth (year : Int) (month : Nat) : Nat :=
  if month = 2 then if isLeapYear year then 29 else 28
  else if month = 4 || month = 6 || month = 9 || month = 11 then 30
  else 31

/-- The days from the start of 1970 to a date. Years are counted from March, so that the leap day
comes last. -/
def dayNumber (year : Int) (month day : Nat) : Int :=
  let shifted := if month ≤ 2 then year - 1 else year
  let monthFromMarch := (month + 9) % 12
  let dayOfYear := (153 * monthFromMarch + 2) / 5 + day - 1
  365 * shifted + shifted / 4 - shifted / 100 + shifted / 400 + dayOfYear - 719468

/-- Year, month and day of a day number. -/
def dateOf (number : Int) : Int × Nat × Nat :=
  let shifted := number + 719468
  let era := shifted / 146097
  let dayOfEra := (shifted % 146097).toNat
  let yearOfEra :=
    (dayOfEra - dayOfEra / 1460 + dayOfEra / 36524 - dayOfEra / 146096) / 365
  let dayOfYear := dayOfEra - (365 * yearOfEra + yearOfEra / 4 - yearOfEra / 100)
  let monthFromMarch := (5 * dayOfYear + 2) / 153
  let day := dayOfYear - (153 * monthFromMarch + 2) / 5 + 1
  let month := if monthFromMarch < 10 then monthFromMarch + 3 else monthFromMarch - 9
  let year := (yearOfEra : Int) + 400 * era + if month ≤ 2 then 1 else 0
  (year, month, day)

/-- The years that a date may have. -/
def firstYear : Int := -262143
def lastYear : Int := 262142

/-! Reading -/

/-- A number of at least one and at most `most` digits. -/
def readDigits (most : Nat) (text : List Char) : Option (Nat × List Char) :=
  let digits := (text.take most).takeWhile Char.isDigit
  if digits.isEmpty then none else some (Numeral.valueOf digits, text.drop digits.length)

/-- A number within bounds, with blanks before it. -/
def readBounded (least greatest : Nat) (text : List Char) : Option (Nat × List Char) := do
  let (value, rest) ← readDigits 2 (Text.trimStart text)
  if least ≤ value && value ≤ greatest then some (value, rest) else none

/-- A year: four digits at most, or any number of them behind a sign. -/
def readYear (text : List Char) : Option (Int × List Char) :=
  match Text.trimStart text with
  | '-' :: rest => (readDigits rest.length rest).map fun (year, rest) => (-(year : Int), rest)
  | '+' :: rest => (readDigits rest.length rest).map fun (year, rest) => ((year : Int), rest)
  | rest => (readDigits 4 rest).map fun (year, rest) => ((year : Int), rest)

/-- A sign between two numbers, with blanks before it. -/
def readSign (sign : Char) (text : List Char) : Option (List Char) :=
  match Text.trimStart text with
  | c :: rest => if c = sign then some rest else none
  | [] => none

/-- The nanoseconds of a fraction, if there is one; digits beyond the ninth are dropped. -/
def readNanos (text : List Char) : Option (Nat × List Char) :=
  match text with
  | '.' :: rest =>
      let digits := rest.takeWhile Char.isDigit
      let used := digits.take 9
      if digits.isEmpty then none
      else some (Numeral.valueOf used * Nat.pow 10 (9 - used.length), rest.drop digits.length)
  | rest => some (0, rest)

/-- Exactly two digits. -/
def readTwo (text : List Char) : Option (Nat × List Char) :=
  match text with
  | a :: b :: rest =>
      if a.isDigit && b.isDigit then some (Numeral.valueOf [a, b], rest) else none
  | _ => none

/-- Hours and minutes of an offset, in seconds. -/
def readOffsetSize (text : List Char) : Option (Nat × List Char) := do
  let (hours, rest) ← readTwo text
  let (minutes, rest) ← readTwo (rest.dropWhile fun c => c = ':' || Text.isWhite c)
  if minutes < 60 && hours < 24 then some (3600 * hours + 60 * minutes, rest) else none

/-- The offset from UTC in seconds: `Z`, `UTC`, or a sign with hours and minutes. -/
def readOffset (text : List Char) : Option (Int × List Char) :=
  match text with
  | [] => none
  | c :: rest =>
      if Text.asciiLower (text.take 3) = ['u', 't', 'c'] then some (0, text.drop 3)
      else if c = 'Z' || c = 'z' then some (0, rest)
      else if c = '+' then
        (readOffsetSize rest).map fun (size, rest) => ((size : Int), rest)
      else if c = '-' || c = '\u2212' then
        (readOffsetSize rest).map fun (size, rest) => (-(size : Int), rest)
      else none

/-- The instant of a local date and time at an offset. -/
def ofLocal? (year : Int) (month day hour minute second nanos : Nat) (offset : Int) :
    Option Instant :=
  let leap := second = 60
  let second := if leap then 59 else second
  let seconds : Int :=
    86400 * dayNumber year month day + 3600 * hour + 60 * minute + second - offset
  let utcYear := (dateOf (seconds / 86400)).1
  if firstYear ≤ year && year ≤ lastYear && day ≤ daysInMonth year month &&
      firstYear ≤ utcYear && utcYear ≤ lastYear then
    some { seconds, nanos := if leap then nanos + 1000000000 else nanos }
  else none

/-- Reads an instant. -/
def ofText? (text : List Char) : Option Instant := do
  let (year, rest) ← readYear text
  let rest ← readSign '-' rest
  let (month, rest) ← readBounded 1 12 rest
  let rest ← readSign '-' rest
  let (day, rest) ← readBounded 1 31 rest
  let rest ←
    match rest with
    | c :: rest => if c = 'T' || c = 't' || c = ' ' then some rest else none
    | [] => none
  let (hour, rest) ← readBounded 0 23 rest
  let rest ← readSign ':' rest
  let (minute, rest) ← readBounded 0 59 rest
  let rest ← readSign ':' rest
  let (second, rest) ← readBounded 0 60 rest
  let (nanos, rest) ← readNanos rest
  let (offset, rest) ← readOffset (Text.trimStart rest)
  if Text.isAllWhite rest then ofLocal? year month day hour minute second nanos offset else none

/-! Writing -/

/-- Digits with zeros in front, up to a width. -/
def padded (width n : Nat) : List Char :=
  let digits := Numeral.digitsOf n
  List.replicate (width - digits.length) '0' ++ digits

/-- A year has four digits; outside the years 0 to 9999 it has a sign. -/
def yearText (year : Int) : List Char :=
  if year < 0 then '-' :: padded 4 year.natAbs
  else if 9999 < year then '+' :: padded 4 year.natAbs
  else padded 4 year.natAbs

/-- The fewest groups of three digits that lose nothing. -/
def fractionText (nanos : Nat) : List Char :=
  if nanos = 0 then []
  else if nanos % 1000000 = 0 then '.' :: padded 3 (nanos / 1000000)
  else if nanos % 1000 = 0 then '.' :: padded 6 (nanos / 1000)
  else '.' :: padded 9 nanos

/-- The text of an instant, in UTC. -/
def toText (instant : Instant) : List Char :=
  let (year, month, day) := dateOf (instant.seconds / 86400)
  let second := (instant.seconds % 86400).toNat
  let leap := 1000000000 ≤ instant.nanos
  let nanos := if leap then instant.nanos - 1000000000 else instant.nanos
  yearText year ++ '-' :: padded 2 month ++ '-' :: padded 2 day ++
    'T' :: padded 2 (second / 3600) ++ ':' :: padded 2 (second / 60 % 60) ++
    ':' :: padded 2 (second % 60 + if leap then 1 else 0) ++ fractionText nanos ++ ['Z']

end Instant

end SnippetAudit
