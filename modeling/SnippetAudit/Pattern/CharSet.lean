import SnippetAudit.Text.Blank

/-!
Sets of characters.

A set is a list of ranges of code points in ascending order, with a gap between each two. Every
operation keeps this form, so two sets with the same members are equal.

The named sets (`digit`, `word`, …) are the ASCII ones. Case is folded for the letters of ASCII and
for the two signs that fold to one of them, the Kelvin sign and the long s.
-/

set_option autoImplicit false

namespace SnippetAudit

/-- A set of characters, as its ranges of code points. -/
structure CharSet where
  ranges : List (Nat × Nat)
  deriving DecidableEq, Repr

namespace CharSet

/-- Membership. -/
def contains (set : CharSet) (c : Char) : Bool :=
  Text.inRanges set.ranges c

/-- The greatest code point. -/
def lastCode : Nat := 0x10FFFF

/-- The code point after the given one. The surrogates are no characters and are passed over. -/
def codeAfter (code : Nat) : Nat :=
  if code = 0xD7FF then 0xE000 else code + 1

/-- The code point before the given one. -/
def codeBefore (code : Nat) : Nat :=
  if code = 0xE000 then 0xD7FF else code - 1

/-- Puts a range in its place and joins it with the ranges that it overlaps or touches. -/
def insertRange (range : Nat × Nat) : List (Nat × Nat) → List (Nat × Nat)
  | [] => [range]
  | (first, last) :: rest =>
      if codeAfter range.2 < first then range :: (first, last) :: rest
      else if codeAfter last < range.1 then (first, last) :: insertRange range rest
      else insertRange (min range.1 first, max range.2 last) rest

/-- The gaps between ranges, from a code point on. -/
def gaps (start : Nat) : List (Nat × Nat) → List (Nat × Nat)
  | [] => if start ≤ lastCode then [(start, lastCode)] else []
  | (first, last) :: rest =>
      if start < first then (start, codeBefore first) :: gaps (codeAfter last) rest
      else gaps (codeAfter last) rest

/-- The union of ranges, in any order. -/
def ofRanges (ranges : List (Nat × Nat)) : CharSet where
  ranges := ranges.foldr insertRange []

def nothing : CharSet := ⟨[]⟩

/-- The characters from one to another, both included. -/
def range (first last : Char) : CharSet := ⟨[(first.toNat, last.toNat)]⟩

/-- The set of one character. -/
def single (c : Char) : CharSet :=
  range c c

def union (left right : CharSet) : CharSet where
  ranges := left.ranges.foldr insertRange right.ranges

/-- The characters that are not in the set. -/
def compl (set : CharSet) : CharSet where
  ranges := gaps 0 set.ranges

/-- The members of the left set that are not in the right one. -/
def diff (left right : CharSet) : CharSet :=
  compl (union (compl left) right)

def inter (left right : CharSet) : CharSet :=
  diff left (compl right)

/-- The characters in exactly one of the two sets. -/
def symmDiff (left right : CharSet) : CharSet :=
  diff (union left right) (inter left right)

/-- The parts of a set's ranges that lie between two codes, moved to another place. -/
def movedPart (set : CharSet) (first last : Nat) (move : Nat → Nat) : List (Nat × Nat) :=
  set.ranges.filterMap fun (low, high) =>
    let low := max low first
    let high := min high last
    if low ≤ high then some (move low, move high) else none

/-- The set together with its letters of ASCII in the other case. -/
def anyAsciiCase (set : CharSet) : CharSet :=
  ofRanges
    (set.movedPart 65 90 (· + 32) ++ set.movedPart 97 122 (· - 32) ++ set.ranges)

/-- The characters that differ in case only, where there are more than two of them. -/
def caseFamilies : List (List Char) :=
  [['k', 'K', '\u212a'], ['s', 'S', '\u017f']]

/-- The set together with all that differs from a member in case only. -/
def anyCase (set : CharSet) : CharSet :=
  caseFamilies.foldl
    (fun sofar family =>
      if family.any set.contains then (family.map single).foldr union sofar else sofar)
    set.anyAsciiCase

def anything : CharSet := compl nothing
def digit : CharSet := range '0' '9'
def lower : CharSet := range 'a' 'z'
def upper : CharSet := range 'A' 'Z'
def alpha : CharSet := union upper lower
def alnum : CharSet := union digit alpha
def word : CharSet := union alnum (single '_')
def space : CharSet := union (range '\t' '\r') (single ' ')

/-- The Unicode white space. -/
def white : CharSet := ⟨Text.whiteRanges⟩

/-- The characters of words and those that fold to one. -/
def foldedWord : CharSet := anyCase word

/-- The sets that a class may name between `[:` and `:]`. -/
def ofName? (name : List Char) : Option CharSet :=
  if name = ['a', 'l', 'n', 'u', 'm'] then some alnum
  else if name = ['a', 'l', 'p', 'h', 'a'] then some alpha
  else if name = ['a', 's', 'c', 'i', 'i'] then some (range '\x00' '\x7f')
  else if name = ['b', 'l', 'a', 'n', 'k'] then some (union (single '\t') (single ' '))
  else if name = ['c', 'n', 't', 'r', 'l'] then
    some (union (range '\x00' '\x1f') (single '\x7f'))
  else if name = ['d', 'i', 'g', 'i', 't'] then some digit
  else if name = ['g', 'r', 'a', 'p', 'h'] then some (range '!' '~')
  else if name = ['l', 'o', 'w', 'e', 'r'] then some lower
  else if name = ['p', 'r', 'i', 'n', 't'] then some (range ' ' '~')
  else if name = ['p', 'u', 'n', 'c', 't'] then
    some ⟨[(0x21, 0x2F), (0x3A, 0x40), (0x5B, 0x60), (0x7B, 0x7E)]⟩
  else if name = ['s', 'p', 'a', 'c', 'e'] then some space
  else if name = ['u', 'p', 'p', 'e', 'r'] then some upper
  else if name = ['w', 'o', 'r', 'd'] then some word
  else if name = ['x', 'd', 'i', 'g', 'i', 't'] then
    some ⟨[(0x30, 0x39), (0x41, 0x46), (0x61, 0x66)]⟩
  else none

end CharSet

end SnippetAudit
