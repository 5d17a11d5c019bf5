import SnippetAudit.Json.Printer
import SnippetAudit.Json.Reader

/-!
The grammar of JSON texts: which texts spell which value.

A value has many spellings. Blanks may stand around every token, a character of a string may be
written as itself or by any of its escapes, and an exponent may leave out its sign. Nothing here
refers to how a text is read. A literal that names half of a surrogate pair spells no value.
-/

set_option autoImplicit false

namespace SnippetAudit.Json

/-- Blank characters only. -/
def Blanks (text : List Char) : Prop :=
  ∀ c ∈ text, isBlank c = true

theorem blanks_nil : Blanks [] := by
  simp [Blanks]

/-! Strings -/

/-- A digit of this value in base sixteen, in lower or upper case. -/
def HexDigit (value : Nat) (c : Char) : Prop :=
  value < 16 ∧ (c = hexChar value ∨ c = (hexChar value).toUpper)

/-- `\u` and four hexadecimal digits, which together have the value of the unit. -/
inductive SpellsUnit (unit : Nat) : List Char → Prop where
  | digits {a b c d : Char} (bounded : unit < 0x10000) :
      HexDigit (unit / 0x1000) a → HexDigit (unit / 0x100 % 16) b →
      HexDigit (unit / 0x10 % 16) c → HexDigit (unit % 16) d →
      SpellsUnit unit ['\\', 'u', a, b, c, d]

/-- The letters of the one-letter escapes, each with the character that it stands for. -/
def letterEscapes : List (Char × Char) :=
  [('"', '"'), ('\\', '\\'), ('/', '/'), ('b', '\x08'), ('f', '\x0c'), ('n', '\n'), ('r', '\r'),
   ('t', '\t')]

/-- The first and the second half of the surrogate pair for a character beyond sixteen bits. -/
def highUnit (c : Char) : Nat :=
  0xD800 + (c.toNat - 0x10000) / 0x400

def lowUnit (c : Char) : Nat :=
  0xDC00 + (c.toNat - 0x10000) % 0x400

/-- One character between quotes. Control characters have to be escaped. -/
inductive SpellsChar (c : Char) : List Char → Prop where
  | plain : 32 ≤ c.toNat → c ≠ '"' → c ≠ '\\' → SpellsChar c [c]
  | letter {letter : Char} : (letter, c) ∈ letterEscapes → SpellsChar c ['\\', letter]
  | unit {text : List Char} : c.toNat < 0x10000 → SpellsUnit c.toNat text → SpellsChar c text
  | pair {high low : List Char} :
      0x10000 ≤ c.toNat → SpellsUnit (highUnit c) high → SpellsUnit (lowUnit c) low →
      SpellsChar c (high ++ low)

/-- What stands between the quotes of a string. -/
inductive SpellsChars : List Char → List Char → Prop where
  | nil : SpellsChars [] []
  | cons {c : Char} {chars head tail : List Char} :
      SpellsChar c head → SpellsChars chars tail → SpellsChars (c :: chars) (head ++ tail)

/-- A string with its quotes. -/
inductive SpellsString (string : String) : List Char → Prop where
  | quoted {text : List Char} :
      SpellsChars string.toList text → SpellsString string ('"' :: (text ++ ['"']))

/-! Numbers -/

/-- At least one decimal digit, and nothing else. -/
def Digits (text : List Char) : Prop :=
  text ≠ [] ∧ ∀ c ∈ text, c.isDigit = true

/-- Digits before the point: a single zero, or digits that do not start with zero. -/
def WholeDigits (text : List Char) : Prop :=
  Digits text ∧ (text.head? = some '0' → text = ['0'])

inductive SpellsFraction : List Char → List Char → Prop where
  | absent : SpellsFraction [] []
  | present {digits : List Char} : Digits digits → SpellsFraction digits ('.' :: digits)

/-- The sign of an exponent, where plus may be left out. -/
inductive SpellsSign : Bool → List Char → Prop where
  | absent : SpellsSign false []
  | plus : SpellsSign false ['+']
  | minus : SpellsSign true ['-']

inductive SpellsExponent : Option (Bool × List Char) → List Char → Prop where
  | absent : SpellsExponent none []
  | present {mark : Char} {negative : Bool} {sign digits : List Char} :
      mark = 'e' ∨ mark = 'E' → SpellsSign negative sign → Digits digits →
      SpellsExponent (some (negative, digits)) (mark :: (sign ++ digits))

inductive SpellsNumeral (numeral : Numeral) : List Char → Prop where
  | parts {fraction exponent : List Char} :
      WholeDigits numeral.whole → SpellsFraction numeral.fraction fraction →
      SpellsExponent numeral.exponent exponent →
      SpellsNumeral numeral
        ((if numeral.negative then ['-'] else []) ++ (numeral.whole ++ (fraction ++ exponent)))

/-! Values -/

mutual

/-- `Spells value text` says that the text, which has no blanks around it, spells the value. -/
inductive Spells : Json → List Char → Prop where
  | null : Spells .null ['n', 'u', 'l', 'l']
  | boolTrue : Spells (.bool true) ['t', 'r', 'u', 'e']
  | boolFalse : Spells (.bool false) ['f', 'a', 'l', 's', 'e']
  | number {numeral : Numeral} {text : List Char} :
      SpellsNumeral numeral text → Spells (.number numeral) text
  | string {string : String} {text : List Char} :
      SpellsString string text → Spells (.string string) text
  | emptyArray {text : List Char} : Blanks text → Spells (.array []) ('[' :: (text ++ [']']))
  | array {items : List Json} {text : List Char} :
      SpellsItems items text → Spells (.array items) ('[' :: (text ++ [']']))
  | emptyObject {text : List Char} :
      Blanks text → Spells (.object []) ('\x7b' :: (text ++ ['\x7d']))
  | object {members : List (String × Json)} {text : List Char} :
      SpellsMembers members text → Spells (.object members) ('\x7b' :: (text ++ ['\x7d']))

/-- A value with blanks around it. -/
inductive SpellsPadded : Json → List Char → Prop where
  | padded {value : Json} {before text after : List Char} :
      Blanks before → Spells value text → Blanks after →
      SpellsPadded value (before ++ (text ++ after))

/-- The items of an array that has some, with the commas between them. -/
inductive SpellsItems : List Json → List Char → Prop where
  | last {item : Json} {text : List Char} : SpellsPadded item text → SpellsItems [item] text
  | more {item : Json} {items : List Json} {text rest : List Char} :
      SpellsPadded item text → SpellsItems items rest →
      SpellsItems (item :: items) (text ++ ',' :: rest)

/-- The members of an object that has some, with the commas between them. -/
inductive SpellsMembers : List (String × Json) → List Char → Prop where
  | last {key : String} {value : Json} {before quoted after text : List Char} :
      Blanks before → SpellsString key quoted → Blanks after → SpellsPadded value text →
      SpellsMembers [(key, value)] (before ++ (quoted ++ (after ++ ':' :: text)))
  | more {key : String} {value : Json} {members : List (String × Json)}
      {before quoted after text rest : List Char} :
      Blanks before → SpellsString key quoted → Blanks after → SpellsPadded value text →
      SpellsMembers members rest →
      SpellsMembers ((key, value) :: members)
        (before ++ (quoted ++ (after ++ ':' :: (text ++ ',' :: rest))))

end

end SnippetAudit.Json
