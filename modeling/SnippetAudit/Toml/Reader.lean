import SnippetAudit.Decimal.Numeral
import SnippetAudit.Instant
import SnippetAudit.Toml.Basic

/-!
Reading TOML text.

Every reader takes the rest of the text and gives what it read with what follows. A reader that
fails makes the whole document fail: at each place the next characters decide what has to follow.
-/

set_option autoImplicit false

namespace SnippetAudit.Toml

/-! Blanks, line ends and comments -/

def skipBlanks (text : List Char) : List Char :=
  text.dropWhile fun c => c = ' ' || c = '\t'

def readNewline : List Char → Option (List Char)
  | '\n' :: rest => some rest
  | '\r' :: '\n' :: rest => some rest
  | _ => none

/-- A character that may stand for itself: no control character but the tab. -/
def isPlain (c : Char) : Bool :=
  c = '\t' || (32 ≤ c.toNat && c.toNat ≠ 127)

def skipComment : List Char → List Char
  | '#' :: rest => rest.dropWhile isPlain
  | text => text

/-- Reads the end of a line: blanks and a comment, then a line end or the end of the text. -/
def readLineEnd (text : List Char) : Option (List Char) :=
  match skipComment (skipBlanks text) with
  | [] => some []
  | text => readNewline text

/-- Skips blanks and line ends. -/
def skipLineEnds : Nat → List Char → List Char
  | 0, text => text
  | budget + 1, text =>
      match readNewline (skipBlanks text) with
      | some rest => skipLineEnds budget rest
      | none => skipBlanks text

/-- Skips blanks, comments and line ends. -/
def skipGap : Nat → List Char → List Char
  | 0, text => text
  | budget + 1, text =>
      let text := skipComment (skipBlanks text)
      match readNewline text with
      | some rest => skipGap budget rest
      | none => text

/-! Strings and keys -/

def digitValue (c : Char) : Nat :=
  if c.isDigit then c.toNat - 48
  else if c.isLower then c.toNat - 87
  else c.toNat - 55

def isHexDigit (c : Char) : Bool :=
  c.isDigit || ('a' ≤ c && c ≤ 'f') || ('A' ≤ c && c ≤ 'F')

def valueIn (base : Nat) (digits : List Char) : Nat :=
  digits.foldl (fun value digit => base * value + digitValue digit) 0

/-- The character that a number of hexadecimal digits names. -/
def readCodePoint (width : Nat) (text : List Char) : Option (Char × List Char) :=
  let digits := text.take width
  let code := valueIn 16 digits
  if digits.length = width && digits.all isHexDigit && decide code.isValidChar then
    some (Char.ofNat code, text.drop width)
  else none

/-- Reads what follows a backslash. -/
def readEscape : List Char → Option (Char × List Char)
  | 'b' :: rest => some ('\x08', rest)
  | 't' :: rest => some ('\t', rest)
  | 'n' :: rest => some ('\n', rest)
  | 'f' :: rest => some ('\x0c', rest)
  | 'r' :: rest => some ('\r', rest)
  | '"' :: rest => some ('"', rest)
  | '\\' :: rest => some ('\\', rest)
  | 'u' :: rest => readCodePoint 4 rest
  | 'U' :: rest => readCodePoint 8 rest
  | _ => none

/-- Reads a string up to its closing quote, or three of them if it may hold line ends. The text of
a double-quoted string has escapes, and there a backslash at a line's end joins it with the next
lines. Up to two quotes may stand anywhere in a string that three quotes close. `done` holds the
characters read, last first. -/
def readString (quote : Char) (multiline : Bool) :
    Nat → List Char → List Char → Option (List Char × List Char)
  | 0, _, _ => none
  | _, _, [] => none
  | budget + 1, done, c :: rest =>
      if c = quote then
        if multiline then
          let run := 1 + (rest.takeWhile (· = quote)).length
          if run < 3 then
            readString quote multiline budget (List.replicate run quote ++ done)
              (rest.drop (run - 1))
          else if run ≤ 5 then
            some ((List.replicate (run - 3) quote ++ done).reverse, rest.drop (run - 1))
          else none
        else some (done.reverse, rest)
      else if c = '\\' && quote = '"' then
        match readEscape rest with
        | some (c, rest) => readString quote multiline budget (c :: done) rest
        | none =>
            if multiline then
              match readNewline (skipBlanks rest) with
              | some rest => readString quote multiline budget done (skipLineEnds budget rest)
              | none => none
            else none
      else if isPlain c then readString quote multiline budget (c :: done) rest
      else if multiline then
        match readNewline (c :: rest) with
        | some rest => readString quote multiline budget ('\n' :: done) rest
        | none => none
      else none

/-- Reads a string that starts with the given quote; `rest` follows that quote. A line end right
behind three opening quotes does not belong to the string. -/
def readQuoted (quote : Char) (rest : List Char) : Option (List Char × List Char) :=
  match rest with
  | second :: third :: rest =>
      if second = quote && third = quote then
        readString quote true (rest.length + 1) [] ((readNewline rest).getD rest)
      else readString quote false (rest.length + 3) [] (second :: third :: rest)
  | rest => readString quote false (rest.length + 1) [] rest

def isBareChar (c : Char) : Bool :=
  c.isAlphanum || c = '_' || c = '-'

/-- Reads one key: quoted on one line, or bare. -/
def readKey (text : List Char) : Option (String × List Char) :=
  match text with
  | [] => none
  | c :: rest =>
      if c = '"' || c = '\x27' then
        (readString c false (rest.length + 1) [] rest).map fun (key, rest) =>
          (String.ofList key, rest)
      else if isBareChar c then
        some (String.ofList (text.takeWhile isBareChar), text.dropWhile isBareChar)
      else none

/-- Nothing is nested this deep, be it by brackets and braces or by a dotted key. -/
def depthLimit : Nat := 80

/-- Reads keys joined by dots, with blanks around each, as the path to the last key and that key. -/
def readDotted : Nat → List Char → Option ((List String × String) × List Char)
  | 0, _ => none
  | budget + 1, text => do
      let (key, rest) ← readKey (skipBlanks text)
      match skipBlanks rest with
      | '.' :: rest =>
          let ((path, last), rest) ← readDotted budget rest
          return ((key :: path, last), rest)
      | rest => return (([], key), rest)

def readPath (text : List Char) : Option ((List String × String) × List Char) :=
  readDotted (depthLimit - 1) text

/-! Dates and times -/

def readTwoDigits (least greatest : Nat) : List Char → Option (List Char)
  | a :: b :: rest =>
      let value := valueIn 10 [a, b]
      if a.isDigit && b.isDigit && least ≤ value && value ≤ greatest then some rest else none
  | _ => none

def readMark (mark : Char) : List Char → Option (List Char)
  | c :: rest => if c = mark then some rest else none
  | [] => none

def startsTime : List Char → Bool
  | a :: b :: ':' :: _ => a.isDigit && b.isDigit
  | _ => false

def startsDate : List Char → Bool
  | a :: b :: c :: d :: '-' :: _ => a.isDigit && b.isDigit && c.isDigit && d.isDigit
  | _ => false

/-- Reads a time of day. Its seconds may have a fraction. -/
def readTime (text : List Char) : Option (List Char) := do
  let rest ← readTwoDigits 0 23 text
  let rest ← readMark ':' rest
  let rest ← readTwoDigits 0 59 rest
  let rest ← readMark ':' rest
  let rest ← readTwoDigits 0 60 rest
  match rest with
  | '.' :: c :: rest =>
      if c.isDigit then return rest.dropWhile Char.isDigit else none
  | '.' :: [] => none
  | rest => return rest

/-- Reads the distance from universal time, if there is one. -/
def readOffset (text : List Char) : Option (List Char) :=
  match text with
  | [] => some []
  | c :: rest =>
      if c = 'Z' || c = 'z' then some rest
      else if c = '+' || c = '-' then do
        let rest ← readTwoDigits 0 23 rest
        let rest ← readMark ':' rest
        readTwoDigits 0 59 rest
      else some text

/-- Reads a date, with a time of day if one follows. -/
def readDate (text : List Char) : Option (List Char) := do
  let year := valueIn 10 (text.take 4)
  let afterYear := text.drop 5
  let month := valueIn 10 (afterYear.take 2)
  let rest ← readTwoDigits 1 12 afterYear
  let rest ← readMark '-' rest
  let rest ← readTwoDigits 1 (Instant.daysInMonth year month) rest
  match rest with
  | [] => return []
  | c :: after =>
      if c = 'T' || c = 't' || (c = ' ' && startsTime after) then
        readOffset (← readTime after)
      else return rest

/-! Numbers -/

/-- Whether digits are grouped well: each underscore stands between two digits. -/
def isGrouped (digits : List Char) : Bool :=
  !digits.isEmpty && digits.head? != some '_' && digits.getLast? != some '_' &&
    (digits.zip digits.tail).all (· != ('_', '_'))

/-- Reads grouped digits and drops the underscores. -/
def readDigits (isDigit : Char → Bool) (text : List Char) : Option (List Char × List Char) :=
  let accepts := fun c => isDigit c || c = '_'
  let digits := text.takeWhile accepts
  if isGrouped digits then some (digits.filter (· != '_'), text.dropWhile accepts) else none

/-- Integers have 64 bits, one of them for the sign. -/
def integerBound : Int := 0x8000000000000000

def integer? (value : Int) : Option Scalar :=
  if -integerBound ≤ value && value < integerBound then some (.integer value) else none

def readInBase (base : Nat) (isDigit : Char → Bool) (text : List Char) :
    Option (Scalar × List Char) := do
  let (digits, rest) ← readDigits isDigit text
  let value ← integer? (valueIn base digits)
  return (value, rest)

/-- Reads the digits of a fraction, if a point announces one. -/
def readFraction (text : List Char) : Option (Option (List Char) × List Char) :=
  match text with
  | '.' :: rest => (readDigits Char.isDigit rest).map fun (digits, rest) => (some digits, rest)
  | rest => some (none, rest)

/-- Reads the sign and the digits of an exponent, if a letter announces one. -/
def readExponent (text : List Char) : Option (Option (Bool × List Char) × List Char) :=
  match text with
  | [] => some (none, [])
  | c :: rest =>
      if c = 'e' || c = 'E' then
        let negative := rest.head? = some '-'
        let rest := if negative || rest.head? = some '+' then rest.tail else rest
        (readDigits Char.isDigit rest).map fun (digits, rest) => (some (negative, digits), rest)
      else some (none, text)

/-- Reads a decimal number behind its sign. Its whole part is a single zero or does not start with
one. A float above every finite one is refused; below every finite one it is not. -/
def readDecimal (negative : Bool) (text : List Char) : Option (Scalar × List Char) := do
  let (whole, rest) ← readDigits Char.isDigit text
  if text.head? = some '0' && whole.length ≠ 1 then none
  else
    let (fraction, rest) ← readFraction rest
    let (exponent, rest) ← readExponent rest
    if fraction.isNone && exponent.isNone then
      let value : Int := Numeral.valueOf whole
      return (← integer? (if negative then -value else value), rest)
    else
      let numeral : Numeral := { negative, whole, fraction := fraction.getD [], exponent }
      if negative || numeral.toFloat?.isSome then return (.float, rest) else none

/-- Reads a number. Only a decimal one has a sign. -/
def readNumber (text : List Char) : Option (Scalar × List Char) :=
  match text with
  | '0' :: 'x' :: rest => readInBase 16 isHexDigit rest
  | '0' :: 'o' :: rest => readInBase 8 (fun c => '0' ≤ c && c ≤ '7') rest
  | '0' :: 'b' :: rest => readInBase 2 (fun c => c = '0' || c = '1') rest
  | text =>
      let negative := text.head? = some '-'
      let text := if negative || text.head? = some '+' then text.tail else text
      match text with
      | 'i' :: 'n' :: 'f' :: rest => some (.float, rest)
      | 'n' :: 'a' :: 'n' :: rest => some (.float, rest)
      | text => readDecimal negative text

/-- Reads a value without parts that is not a string. -/
def readScalar (text : List Char) : Option (Scalar × List Char) :=
  match text with
  | 't' :: 'r' :: 'u' :: 'e' :: rest => some (.boolean true, rest)
  | 'f' :: 'a' :: 'l' :: 's' :: 'e' :: rest => some (.boolean false, rest)
  | text =>
      if startsDate text then (readDate text).map fun rest => (.moment, rest)
      else if startsTime text then (readTime text).map fun rest => (.moment, rest)
      else readNumber text

/-! Values -/

mutual

/-- Reads a value that stands `depth` brackets deep. The budget falls with every call, and no text
needs more than twice its length. -/
def readValue : Nat → Nat → List Char → Option (Node × List Char)
  | 0, _, _ => none
  | budget + 1, depth, text =>
      match text with
      | [] => none
      | c :: rest =>
          if c = '"' || c = '\x27' then
            (readQuoted c rest).map fun (text, rest) =>
              (.scalar (.string (String.ofList text)), rest)
          else if c = '[' then
            if depth + 1 < depthLimit then
              (readItems budget (depth + 1) rest).map fun (items, rest) => (.array items, rest)
            else none
          else if c = '\x7b' then
            if depth + 1 < depthLimit then
              match skipBlanks rest with
              | '\x7d' :: rest => some (.table .inline [], rest)
              | rest =>
                  (readMembers budget (depth + 1) [] rest).map fun (members, rest) =>
                    (.table .inline members, rest)
            else none
          else (readScalar text).map fun (value, rest) => (.scalar value, rest)

/-- Reads the items of an array, up to its closing bracket. A comma may follow the last one. -/
def readItems : Nat → Nat → List Char → Option (List Node × List Char)
  | 0, _, _ => none
  | budget + 1, depth, text =>
      match skipGap budget text with
      | ']' :: rest => some ([], rest)
      | text => do
          let (item, rest) ← readValue budget depth text
          match skipGap budget rest with
          | ',' :: rest =>
              let (items, rest) ← readItems budget depth rest
              return (item :: items, rest)
          | ']' :: rest => return ([item], rest)
          | _ => none

/-- Reads the members of an inline table, up to its closing brace, into those that it has. -/
def readMembers : Nat → Nat → Members → List Char → Option (Members × List Char)
  | 0, _, _, _ => none
  | budget + 1, depth, members, text => do
      let ((path, key), rest) ← readPath text
      let rest ← readMark '=' rest
      let (value, rest) ← readValue budget depth (skipBlanks rest)
      let members ← members.assign path key value
      match skipBlanks rest with
      | ',' :: rest => readMembers budget depth members rest
      | '\x7d' :: rest => return (members, rest)
      | _ => none

end

/-! Documents -/

/-- Reads a line that gives a value to a key of the table at `place`. -/
def readAssignment (place : List String) (root : Members) (text : List Char) :
    Option (Members × List Char) := do
  let ((path, key), rest) ← readPath text
  let rest ← readMark '=' rest
  let (value, rest) ← readValue (2 * rest.length + 2) 0 (skipBlanks rest)
  let rest ← readLineEnd rest
  let root ← root.editAt false (fun _ members => members.assign path key value) place false
  return (root, rest)

/-- Reads the lines of a document. `place` is the path of the table that the last header opened. -/
def readLines : Nat → List String → Members → List Char → Option Members
  | 0, _, _, _ => none
  | budget + 1, place, root, text =>
      match skipBlanks text with
      | [] => some root
      | '[' :: '[' :: rest => do
          let ((path, key), rest) ← readPath rest
          let rest ← readMark ']' rest
          let rest ← readMark ']' rest
          let rest ← readLineEnd rest
          let root ← root.openElement path key
          readLines budget (path ++ [key]) root rest
      | '[' :: rest => do
          let ((path, key), rest) ← readPath rest
          let rest ← readMark ']' rest
          let rest ← readLineEnd rest
          let root ← root.openTable path key
          readLines budget (path ++ [key]) root rest
      | text =>
          match readLineEnd text with
          | some rest => readLines budget place root rest
          | none => do
              let (root, rest) ← readAssignment place root text
              readLines budget place root rest

/-- Reads a document. A byte order mark may lead it. -/
def read? (text : List Char) : Option Members :=
  let text := if text.head? = some '\ufeff' then text.tail else text
  readLines (text.length + 1) [] [] text

end SnippetAudit.Toml
