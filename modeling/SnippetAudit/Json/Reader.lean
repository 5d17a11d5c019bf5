import SnippetAudit.Json.Basic

/-!
Reading JSON text.

The whole text has to be one value, with blanks allowed around every token. Any nesting and any
number of digits is read; limits are the business of whoever uses the value.
-/

set_option autoImplicit false

namespace SnippetAudit.Json

def isBlank (c : Char) : Bool :=
  c = ' ' || c = '\t' || c = '\n' || c = '\r'

def skipBlanks (text : List Char) : List Char :=
  text.dropWhile isBlank

/-! Strings -/

def hexValue? (c : Char) : Option Nat :=
  if '0' ≤ c && c ≤ '9' then some (c.toNat - 48)
  else if 'a' ≤ c && c ≤ 'f' then some (c.toNat - 87)
  else if 'A' ≤ c && c ≤ 'F' then some (c.toNat - 55)
  else none

/-- The 16-bit unit that four hexadecimal digits name. -/
def unit? (a b c d : Char) : Option Nat := do
  let a ← hexValue? a
  let b ← hexValue? b
  let c ← hexValue? c
  let d ← hexValue? d
  return 16 * (16 * (16 * a + b) + c) + d

def isHighUnit (unit : Nat) : Bool :=
  0xD800 ≤ unit && unit < 0xDC00

def isLowUnit (unit : Nat) : Bool :=
  0xDC00 ≤ unit && unit < 0xE000

/-- The character of a surrogate pair. -/
def pairChar (high low : Nat) : Char :=
  Char.ofNat (0x10000 + 0x400 * (high - 0xD800) + (low - 0xDC00))

/-- What a one-letter escape stands for. -/
def escaped? (c : Char) : Option Char :=
  if c = '"' || c = '\\' || c = '/' then some c
  else if c = 'b' then some '\x08'
  else if c = 'f' then some '\x0c'
  else if c = 'n' then some '\n'
  else if c = 'r' then some '\r'
  else if c = 't' then some '\t'
  else none

/-- What was read, unless the first half of a surrogate pair still waits for the second. -/
def settled (done : Option (List Char)) (high : Option Nat) : Option (List Char) :=
  if high.isNone then done else none

/-- Reads up to the closing quote. `done` holds the characters read, last first, or nothing once an
unpaired surrogate was met; `high` is the first half of a pair that the last escape named. -/
def readQuoted (done : Option (List Char)) (high : Option Nat) :
    List Char → Option (Option (List Char) × List Char)
  | [] => none
  | '"' :: rest => some ((settled done high).map List.reverse, rest)
  | '\\' :: 'u' :: a :: b :: c :: d :: rest =>
      match unit? a b c d with
      | none => none
      | some unit =>
          if isHighUnit unit then readQuoted (settled done high) (some unit) rest
          else if isLowUnit unit then
            match high with
            | some high => readQuoted (done.map (pairChar high unit :: ·)) none rest
            | none => readQuoted none none rest
          else readQuoted ((settled done high).map (Char.ofNat unit :: ·)) none rest
  | '\\' :: c :: rest =>
      match escaped? c with
      | none => none
      | some c => readQuoted ((settled done high).map (c :: ·)) none rest
  | c :: rest =>
      if c.toNat < 32 then none else readQuoted ((settled done high).map (c :: ·)) none rest

/-! Numbers -/

/-- The digits that a text starts with, and what follows them. -/
def splitDigits (text : List Char) : List Char × List Char :=
  (text.takeWhile Char.isDigit, text.dropWhile Char.isDigit)

def readFraction (text : List Char) : Option (List Char × List Char) :=
  match text with
  | '.' :: rest =>
      let (digits, rest) := splitDigits rest
      if digits.isEmpty then none else some (digits, rest)
  | rest => some ([], rest)

/-- The sign of an exponent and what follows it. -/
def splitSign (text : List Char) : Bool × List Char :=
  match text with
  | '-' :: rest => (true, rest)
  | '+' :: rest => (false, rest)
  | rest => (false, rest)

def readExponent (text : List Char) : Option (Option (Bool × List Char) × List Char) :=
  match text with
  | [] => some (none, [])
  | c :: rest =>
      if c = 'e' || c = 'E' then
        let (negative, rest) := splitSign rest
        let (digits, rest) := splitDigits rest
        if digits.isEmpty then none else some (some (negative, digits), rest)
      else some (none, c :: rest)

/-- Reads a number. Its digits before the point are a single zero or do not start with one. -/
def readNumeral (text : List Char) : Option (Numeral × List Char) := do
  let negative := text.head? = some '-'
  let text := if negative then text.tail else text
  let (whole, rest) := splitDigits text
  if whole.isEmpty || (whole.head? = some '0' && whole.length ≠ 1) then none
  else
    let (fraction, rest) ← readFraction rest
    let (exponent, rest) ← readExponent rest
    return ({ negative, whole, fraction, exponent }, rest)

/-! Values -/

/-- The value of a quoted literal. -/
def ofQuoted : Option (List Char) → Json
  | some text => .string (String.ofList text)
  | none => .unpaired

/-- The value with these members, or with a key among them that is unpaired. -/
def ofMembers : Option (List (String × Json)) → Json
  | some members => .object members
  | none => .unpaired

/-- Puts a member in front of others, unless one of the keys is unpaired. -/
def withMember (key : Option String) (value : Json) (members : Option (List (String × Json))) :
    Option (List (String × Json)) := do
  return (← key, value) :: (← members)

/-- Reads a member's key and its colon; `text` starts behind the quote. -/
def readKey (text : List Char) : Option (Option String × List Char) :=
  match readQuoted (some []) none text with
  | some (key, rest) =>
      match skipBlanks rest with
      | ':' :: rest => some (key.map String.ofList, rest)
      | _ => none
  | none => none

mutual

/-- Reads one value. The budget falls with every call, and no text needs more than twice its
length. -/
def readValue : Nat → List Char → Option (Json × List Char)
  | 0, _ => none
  | budget + 1, text =>
      match skipBlanks text with
      | 'n' :: 'u' :: 'l' :: 'l' :: rest => some (.null, rest)
      | 't' :: 'r' :: 'u' :: 'e' :: rest => some (.bool true, rest)
      | 'f' :: 'a' :: 'l' :: 's' :: 'e' :: rest => some (.bool false, rest)
      | '"' :: rest =>
          (readQuoted (some []) none rest).map fun (done, rest) => (ofQuoted done, rest)
      | '[' :: rest =>
          match skipBlanks rest with
          | ']' :: rest => some (.array [], rest)
          | rest => (readItems budget rest).map fun (items, rest) => (.array items, rest)
      | '\x7b' :: rest =>
          match skipBlanks rest with
          | '\x7d' :: rest => some (.object [], rest)
          | rest => (readMembers budget rest).map fun (members, rest) => (ofMembers members, rest)
      | text => (readNumeral text).map fun (numeral, rest) => (.number numeral, rest)

/-- Reads the items of an array, up to its closing bracket. -/
def readItems : Nat → List Char → Option (List Json × List Char)
  | 0, _ => none
  | budget + 1, text => do
      let (item, rest) ← readValue budget text
      match skipBlanks rest with
      | ',' :: rest =>
          let (items, rest) ← readItems budget rest
          return (item :: items, rest)
      | ']' :: rest => return ([item], rest)
      | _ => none

/-- Reads the members of an object, up to its closing brace. There are none to be told if one of
their keys is unpaired. -/
def readMembers : Nat → List Char → Option (Option (List (String × Json)) × List Char)
  | 0, _ => none
  | budget + 1, text => do
      match skipBlanks text with
      | '"' :: rest =>
          let (key, rest) ← readKey rest
          let (value, rest) ← readValue budget rest
          match skipBlanks rest with
          | ',' :: rest =>
              let (members, rest) ← readMembers budget rest
              return (withMember key value members, rest)
          | '\x7d' :: rest => return (withMember key value (some []), rest)
          | _ => none
      | _ => none

end

/-- Reads a text that is one JSON value. -/
def read? (text : List Char) : Option Json :=
  match readValue (2 * text.length + 2) text with
  | some (value, rest) => if (skipBlanks rest).isEmpty then some value else none
  | none => none

end SnippetAudit.Json
