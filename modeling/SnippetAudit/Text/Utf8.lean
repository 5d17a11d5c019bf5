/-!
Text from bytes, and bytes of text.

Bytes that are not UTF-8 are replaced: each maximal piece that could have started a character, or
a single byte that could not, becomes one replacement character.
-/

set_option autoImplicit false

namespace SnippetAudit.Text.Utf8

/-- The bytes of a text. -/
def encode (text : List Char) : List UInt8 :=
  text.flatMap String.utf8EncodeChar

/-- The replacement character. -/
def replacement : Char := '\ufffd'

def inRange (first last : Nat) (byte : UInt8) : Bool :=
  first ≤ byte.toNat && byte.toNat ≤ last

/-- Whether the byte continues a character. -/
def isTail (byte : UInt8) : Bool :=
  inRange 0x80 0xBF byte

/-- The bytes that may come second after this leading byte of a character of three bytes. -/
def secondOfThree (lead byte : UInt8) : Bool :=
  if lead = 0xE0 then inRange 0xA0 0xBF byte
  else if lead = 0xED then inRange 0x80 0x9F byte
  else inRange 0xE1 0xEF lead && isTail byte

/-- The bytes that may come second after this leading byte of a character of four bytes. -/
def secondOfFour (lead byte : UInt8) : Bool :=
  if lead = 0xF0 then inRange 0x90 0xBF byte
  else if lead = 0xF4 then inRange 0x80 0x8F byte
  else inRange 0xF1 0xF3 lead && isTail byte

/-- The character of leading bits and continuation bytes. -/
def build (lead : Nat) (tail : List UInt8) : Char :=
  Char.ofNat (tail.foldl (fun code byte => 64 * code + byte.toNat % 64) lead)

/-- One step of decoding: the next character, or nothing for a piece that is not UTF-8, and how
many bytes it takes. -/
def next (lead : UInt8) (rest : List UInt8) : Option Char × Nat :=
  let second := rest.head?
  let third := rest[1]?
  let fourth := rest[2]?
  if lead.toNat < 0x80 then (some (Char.ofNat lead.toNat), 1)
  else if inRange 0xC2 0xDF lead then
    match second with
    | some b => if isTail b then (some (build (lead.toNat % 32) [b]), 2) else (none, 1)
    | none => (none, 1)
  else if inRange 0xE0 0xEF lead then
    match second, third with
    | some b, some c =>
        if !secondOfThree lead b then (none, 1)
        else if isTail c then (some (build (lead.toNat % 16) [b, c]), 3)
        else (none, 2)
    | some b, none => (none, if secondOfThree lead b then 2 else 1)
    | none, _ => (none, 1)
  else if inRange 0xF0 0xF4 lead then
    match second, third, fourth with
    | some b, some c, some d =>
        if !secondOfFour lead b then (none, 1)
        else if !isTail c then (none, 2)
        else if isTail d then (some (build (lead.toNat % 8) [b, c, d]), 4)
        else (none, 3)
    | some b, some c, none =>
        if !secondOfFour lead b then (none, 1)
        else (none, if isTail c then 3 else 2)
    | some b, none, _ => (none, if secondOfFour lead b then 2 else 1)
    | none, _, _ => (none, 1)
  else (none, 1)

/-- Decodes bytes, as characters last first; `skip` bytes still belong to the last one. -/
def decodeFrom (done : List (Option Char)) (skip : Nat) : List UInt8 → List (Option Char)
  | [] => done
  | byte :: rest =>
      match skip with
      | skip + 1 => decodeFrom done skip rest
      | 0 =>
          let (decoded, taken) := next byte rest
          decodeFrom (decoded :: done) (taken - 1) rest

/-- The characters of the bytes; nothing stands for a piece that is not UTF-8. -/
def pieces (bytes : List UInt8) : List (Option Char) :=
  (decodeFrom [] 0 bytes).reverse

/-- Text from bytes, with replacements. -/
def decodeLossy (bytes : List UInt8) : List Char :=
  (pieces bytes).map fun piece => piece.getD replacement

/-- Text from bytes that are all UTF-8. -/
def decode? (bytes : List UInt8) : Option (List Char) :=
  (pieces bytes).mapM id

end SnippetAudit.Text.Utf8
