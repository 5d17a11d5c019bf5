import SnippetAudit.Json.Basic

/-!
Writing JSON text, either without blanks or indented by two spaces a level.

Every function writes in front of a text that is already there.
-/

set_option autoImplicit false

namespace SnippetAudit.Json

def hexChar (n : Nat) : Char :=
  Char.ofNat (if n < 10 then 48 + n else 87 + n)

/-- How a character is written between quotes: quote, backslash and control characters are
escaped, all others stand for themselves. -/
def escape (c : Char) : List Char :=
  if c = '"' then ['\\', '"']
  else if c = '\\' then ['\\', '\\']
  else if c = '\x08' then ['\\', 'b']
  else if c = '\x0c' then ['\\', 'f']
  else if c = '\n' then ['\\', 'n']
  else if c = '\r' then ['\\', 'r']
  else if c = '\t' then ['\\', 't']
  else if c.toNat < 32 then
    ['\\', 'u', '0', '0', hexChar (c.toNat / 16), hexChar (c.toNat % 16)]
  else [c]

/-- A quoted text. -/
def writeQuoted (text : List Char) (rest : List Char) : List Char :=
  '"' :: text.foldr (fun c rest => escape c ++ rest) ('"' :: rest)

def writeBool (value : Bool) (rest : List Char) : List Char :=
  if value then 't' :: 'r' :: 'u' :: 'e' :: rest else 'f' :: 'a' :: 'l' :: 's' :: 'e' :: rest

def writeNull (rest : List Char) : List Char :=
  'n' :: 'u' :: 'l' :: 'l' :: rest

/-- An unpaired surrogate, as the escape of the first one. -/
def writeUnpaired (rest : List Char) : List Char :=
  '"' :: '\\' :: 'u' :: 'd' :: '8' :: '0' :: '0' :: '"' :: rest

/-- What separates two items, and what stands around a colon: nothing in compact text; in indented
text each item is on a line of its own. -/
inductive Style where
  | compact
  | indented

/-- The end of a line and the start of the next one at this level; nothing in compact text. -/
def Style.newline (style : Style) (level : Nat) (rest : List Char) : List Char :=
  match style with
  | .compact => rest
  | .indented => '\n' :: (List.replicate (2 * level) ' ' ++ rest)

def Style.colon (style : Style) (rest : List Char) : List Char :=
  match style with
  | .compact => ':' :: rest
  | .indented => ':' :: ' ' :: rest

mutual

/-- Writes a value whose first line is at this level. -/
def write (style : Style) (level : Nat) : Json → List Char → List Char
  | .null, rest => writeNull rest
  | .bool value, rest => writeBool value rest
  | .number numeral, rest => numeral.spell ++ rest
  | .string text, rest => writeQuoted text.toList rest
  | .unpaired, rest => writeUnpaired rest
  | .array [], rest => '[' :: ']' :: rest
  | .array (item :: items), rest =>
      '[' :: style.newline (level + 1)
        (write style (level + 1) item
          (writeItems style (level + 1) items (style.newline level (']' :: rest))))
  | .object [], rest => '\x7b' :: '\x7d' :: rest
  | .object ((key, value) :: members), rest =>
      '\x7b' :: style.newline (level + 1)
        (writeQuoted key.toList
          (style.colon
            (write style (level + 1) value
              (writeMembers style (level + 1) members (style.newline level ('\x7d' :: rest))))))

/-- Writes the items behind the first one. -/
def writeItems (style : Style) (level : Nat) : List Json → List Char → List Char
  | [], rest => rest
  | item :: items, rest =>
      ',' :: style.newline level (write style level item (writeItems style level items rest))

/-- Writes the members behind the first one. -/
def writeMembers (style : Style) (level : Nat) : List (String × Json) → List Char → List Char
  | [], rest => rest
  | (key, value) :: members, rest =>
      ',' :: style.newline level
        (writeQuoted key.toList
          (style.colon (write style level value (writeMembers style level members rest))))

end

/-- The text without blanks. -/
def compact (value : Json) : String :=
  String.ofList (value.write .compact 0 [])

/-- The indented text. -/
def pretty (value : Json) : String :=
  String.ofList (value.write .indented 0 [])

end SnippetAudit.Json
