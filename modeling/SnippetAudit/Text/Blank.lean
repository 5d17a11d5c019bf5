/-!
White space, trimming and ASCII lower case.

A character is white when it has the Unicode property `White_Space`; trimming removes white
characters at both ends. Lower case here touches the letters `A` to `Z` only.
-/

set_option autoImplicit false

namespace SnippetAudit.Text

/-- The inclusive code point ranges of the property `White_Space`. -/
def whiteRanges : List (Nat × Nat) :=
  [(0x9, 0xD), (0x20, 0x20), (0x85, 0x85), (0xA0, 0xA0), (0x1680, 0x1680), (0x2000, 0x200A),
   (0x2028, 0x2029), (0x202F, 0x202F), (0x205F, 0x205F), (0x3000, 0x3000)]

/-- Whether some range of the table holds the character. -/
def inRanges (ranges : List (Nat × Nat)) (c : Char) : Bool :=
  ranges.any fun (first, last) => first ≤ c.toNat && c.toNat ≤ last

/-- Whether a character is Unicode white space. -/
def isWhite (c : Char) : Bool :=
  inRanges whiteRanges c

/-- Removes white space at the start. -/
def trimStart (text : List Char) : List Char :=
  text.dropWhile isWhite

/-- Removes white space at both ends. -/
def trim (text : List Char) : List Char :=
  (trimStart (trimStart text).reverse).reverse

/-- Whether nothing but white space is in the text. -/
def isAllWhite (text : List Char) : Bool :=
  text.all isWhite

/-- Lower case for the letters `A` to `Z`; every other character is kept. -/
def asciiLower (text : List Char) : List Char :=
  text.map Char.toLower

end SnippetAudit.Text
