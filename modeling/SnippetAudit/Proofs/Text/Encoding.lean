import Mathlib.Data.List.Infix
import Mathlib.Order.Basic
import SnippetAudit.Text.Utf8

/-!
The bytes of characters in UTF-8.

A form is a byte alone, or a leading byte with the bytes that may follow it. The forms are exactly
the bytes of characters, no form starts another, and the order of texts is that of their bytes. The
signs of ASCII are found among the bytes as they are in the text, and bytes can be cut where a
character starts.
-/

set_option autoImplicit false

namespace SnippetAudit.Text.Utf8

/-! Ranges of bytes -/

theorem inRange_iff {first last : Nat} {byte : UInt8} :
    inRange first last byte = true ↔ first ≤ byte.toNat ∧ byte.toNat ≤ last := by
  simp [inRange]

theorem isTail_iff {byte : UInt8} :
    isTail byte = true ↔ 0x80 ≤ byte.toNat ∧ byte.toNat ≤ 0xBF :=
  inRange_iff

theorem secondOfThree_iff {lead byte : UInt8} :
    secondOfThree lead byte = true ↔
      (lead.toNat = 0xE0 ∧ 0xA0 ≤ byte.toNat ∧ byte.toNat ≤ 0xBF) ∨
      (lead.toNat = 0xED ∧ 0x80 ≤ byte.toNat ∧ byte.toNat ≤ 0x9F) ∨
      (lead.toNat ≠ 0xED ∧ (0xE1 ≤ lead.toNat ∧ lead.toNat ≤ 0xEF) ∧
        0x80 ≤ byte.toNat ∧ byte.toNat ≤ 0xBF) := by
  have first : lead = 0xE0 ↔ lead.toNat = 0xE0 := UInt8.toNat_inj.symm
  have other : lead = 0xED ↔ lead.toNat = 0xED := UInt8.toNat_inj.symm
  unfold secondOfThree
  simp only [first, other]
  split_ifs
  · rw [inRange_iff]
    omega
  · rw [inRange_iff]
    omega
  · rw [Bool.and_eq_true, inRange_iff, isTail_iff]
    omega

theorem secondOfFour_iff {lead byte : UInt8} :
    secondOfFour lead byte = true ↔
      (lead.toNat = 0xF0 ∧ 0x90 ≤ byte.toNat ∧ byte.toNat ≤ 0xBF) ∨
      (lead.toNat = 0xF4 ∧ 0x80 ≤ byte.toNat ∧ byte.toNat ≤ 0x8F) ∨
      ((0xF1 ≤ lead.toNat ∧ lead.toNat ≤ 0xF3) ∧ 0x80 ≤ byte.toNat ∧ byte.toNat ≤ 0xBF) := by
  have first : lead = 0xF0 ↔ lead.toNat = 0xF0 := UInt8.toNat_inj.symm
  have last : lead = 0xF4 ↔ lead.toNat = 0xF4 := UInt8.toNat_inj.symm
  unfold secondOfFour
  simp only [first, last]
  split_ifs
  · rw [inRange_iff]
    omega
  · rw [inRange_iff]
    omega
  · rw [Bool.and_eq_true, inRange_iff, isTail_iff]
    omega

/-! Forms -/

/-- The bytes that can stand for one character. -/
inductive Form : List UInt8 → Prop where
  | one {a : UInt8} : a.toNat < 0x80 → Form [a]
  | two {a b : UInt8} : inRange 0xC2 0xDF a = true → isTail b = true → Form [a, b]
  | three {a b c : UInt8} :
      inRange 0xE0 0xEF a = true → secondOfThree a b = true → isTail c = true → Form [a, b, c]
  | four {a b c d : UInt8} :
      inRange 0xF0 0xF4 a = true → secondOfFour a b = true → isTail c = true → isTail d = true →
      Form [a, b, c, d]

/-- The bytes of the character with a number. -/
def bytesOf (n : Nat) : List UInt8 :=
  if n ≤ 0x7F then [.ofNat n]
  else if n ≤ 0x7FF then [.ofNat (n / 64 % 32 + 0xC0), .ofNat (n % 64 + 0x80)]
  else if n ≤ 0xFFFF then
    [.ofNat (n / 4096 % 16 + 0xE0), .ofNat (n / 64 % 64 + 0x80), .ofNat (n % 64 + 0x80)]
  else
    [.ofNat (n / 262144 % 8 + 0xF0), .ofNat (n / 4096 % 64 + 0x80), .ofNat (n / 64 % 64 + 0x80),
      .ofNat (n % 64 + 0x80)]

theorem utf8EncodeChar_eq (c : Char) : String.utf8EncodeChar c = bytesOf c.toNat := rfl

theorem toNat_ofNat_of_lt {n : Nat} (small : n < 0x100) : (UInt8.ofNat n).toNat = n := by
  rw [UInt8.toNat_ofNat']
  omega

theorem ofNat_eq_iff {n : Nat} {byte : UInt8} (small : n < 0x100) :
    UInt8.ofNat n = byte ↔ n = byte.toNat := by
  rw [← UInt8.toNat_inj, toNat_ofNat_of_lt small]

/-- The numbers of characters leave out the surrogates. -/
theorem toNat_valid (c : Char) :
    c.toNat < 0xD800 ∨ (0xDFFF < c.toNat ∧ c.toNat < 0x110000) :=
  c.valid

theorem form_utf8EncodeChar (c : Char) : Form (String.utf8EncodeChar c) := by
  have valid := toNat_valid c
  rw [utf8EncodeChar_eq, bytesOf]
  split_ifs with one two three
  · refine .one ?_
    rw [toNat_ofNat_of_lt] <;> omega
  · refine .two ?_ ?_
    · rw [inRange_iff, toNat_ofNat_of_lt] <;> omega
    · rw [isTail_iff, toNat_ofNat_of_lt] <;> omega
  · refine .three ?_ ?_ ?_
    · rw [inRange_iff, toNat_ofNat_of_lt] <;> omega
    · rw [secondOfThree_iff, toNat_ofNat_of_lt, toNat_ofNat_of_lt] <;> omega
    · rw [isTail_iff, toNat_ofNat_of_lt] <;> omega
  · refine .four ?_ ?_ ?_ ?_
    · rw [inRange_iff, toNat_ofNat_of_lt] <;> omega
    · rw [secondOfFour_iff, toNat_ofNat_of_lt, toNat_ofNat_of_lt] <;> omega
    · rw [isTail_iff, toNat_ofNat_of_lt] <;> omega
    · rw [isTail_iff, toNat_ofNat_of_lt] <;> omega

theorem toNat_ofNat_of_valid {n : Nat} (valid : n.isValidChar) : (Char.ofNat n).toNat = n := by
  rw [Char.ofNat, dif_pos valid]
  rfl

theorem utf8EncodeChar_one {a : UInt8} (small : a.toNat < 0x80) :
    String.utf8EncodeChar (Char.ofNat a.toNat) = [a] := by
  rw [utf8EncodeChar_eq, toNat_ofNat_of_valid (.inl (by omega)), bytesOf, if_pos (by omega),
    UInt8.ofNat_toNat]

theorem utf8EncodeChar_two {a b : UInt8} (lead : inRange 0xC2 0xDF a = true)
    (tail : isTail b = true) :
    String.utf8EncodeChar (build (a.toNat % 32) [b]) = [a, b] := by
  rw [inRange_iff] at lead
  rw [isTail_iff] at tail
  have valid : (64 * (a.toNat % 32) + b.toNat % 64).isValidChar := .inl (by omega)
  rw [utf8EncodeChar_eq]
  simp only [build, List.foldl_cons, List.foldl_nil, toNat_ofNat_of_valid valid]
  rw [bytesOf, if_neg (by omega), if_pos (by omega)]
  simp only [List.cons.injEq, and_true]
  refine ⟨?_, ?_⟩ <;> exact (ofNat_eq_iff (by omega)).mpr (by omega)

theorem utf8EncodeChar_three {a b c : UInt8} (lead : inRange 0xE0 0xEF a = true)
    (second : secondOfThree a b = true) (tail : isTail c = true) :
    String.utf8EncodeChar (build (a.toNat % 16) [b, c]) = [a, b, c] := by
  rw [inRange_iff] at lead
  rw [secondOfThree_iff] at second
  rw [isTail_iff] at tail
  have valid : (64 * (64 * (a.toNat % 16) + b.toNat % 64) + c.toNat % 64).isValidChar := by
    unfold Nat.isValidChar
    omega
  rw [utf8EncodeChar_eq]
  simp only [build, List.foldl_cons, List.foldl_nil, toNat_ofNat_of_valid valid]
  rw [bytesOf, if_neg (by omega), if_neg (by omega), if_pos (by omega)]
  simp only [List.cons.injEq, and_true]
  refine ⟨?_, ?_, ?_⟩ <;> exact (ofNat_eq_iff (by omega)).mpr (by omega)

theorem utf8EncodeChar_four {a b c d : UInt8} (lead : inRange 0xF0 0xF4 a = true)
    (second : secondOfFour a b = true) (third : isTail c = true) (fourth : isTail d = true) :
    String.utf8EncodeChar (build (a.toNat % 8) [b, c, d]) = [a, b, c, d] := by
  rw [inRange_iff] at lead
  rw [secondOfFour_iff] at second
  rw [isTail_iff] at third fourth
  have valid : (64 * (64 * (64 * (a.toNat % 8) + b.toNat % 64) + c.toNat % 64) +
      d.toNat % 64).isValidChar := by
    unfold Nat.isValidChar
    omega
  rw [utf8EncodeChar_eq]
  simp only [build, List.foldl_cons, List.foldl_nil, toNat_ofNat_of_valid valid]
  rw [bytesOf, if_neg (by omega), if_neg (by omega), if_neg (by omega)]
  simp only [List.cons.injEq, and_true]
  refine ⟨?_, ?_, ?_, ?_⟩ <;> exact (ofNat_eq_iff (by omega)).mpr (by omega)

theorem Form.exists_eq {bytes : List UInt8} (form : Form bytes) :
    ∃ c, String.utf8EncodeChar c = bytes := by
  cases form with
  | one small => exact ⟨_, utf8EncodeChar_one small⟩
  | two lead tail => exact ⟨_, utf8EncodeChar_two lead tail⟩
  | three lead second tail => exact ⟨_, utf8EncodeChar_three lead second tail⟩
  | four lead second third fourth => exact ⟨_, utf8EncodeChar_four lead second third fourth⟩

/-- No form starts another: the leading byte tells how many bytes there are. -/
theorem Form.eq_of_isPrefix {left right : List UInt8} (leftForm : Form left)
    (rightForm : Form right) (starts : left <+: right) : left = right := by
  refine starts.eq_of_length ?_
  cases leftForm <;> cases rightForm <;>
    simp only [List.cons_prefix_cons, inRange_iff] at * <;>
    first | rfl | (obtain ⟨rfl, _⟩ := starts; omega)

theorem utf8EncodeChar_ne_nil (c : Char) : String.utf8EncodeChar c ≠ [] := by
  intro empty
  have form := form_utf8EncodeChar c
  rw [empty] at form
  cases form

/-! Order -/

/-- The bytes of the smaller number are smaller at the first place where they differ, so nothing
that follows them matters. -/
theorem bytesOf_append_lt {m n : Nat} (less : m < n) (bounded : n < 0x110000)
    (left right : List UInt8) : bytesOf m ++ left < bytesOf n ++ right := by
  have second : ∀ k : Nat, k / 4096 = k / 64 / 64 := fun k => (Nat.div_div_eq_div_mul k 64 64).symm
  have third : ∀ k : Nat, k / 262144 = k / 64 / 64 / 64 := by
    intro k
    rw [Nat.div_div_eq_div_mul, Nat.div_div_eq_div_mul]
  unfold bytesOf
  simp only [second, third]
  split_ifs <;>
    simp only [List.cons_append, List.nil_append, List.cons_lt_cons_iff, UInt8.lt_iff_toNat_lt,
      ← UInt8.toNat_inj] <;>
    simp (disch := omega) only [toNat_ofNat_of_lt] <;> omega

theorem utf8EncodeChar_append_lt {c d : Char} (less : c < d) (left right : List UInt8) :
    String.utf8EncodeChar c ++ left < String.utf8EncodeChar d ++ right := by
  have valid := toNat_valid d
  have bounded : d.toNat < 0x110000 := by omega
  exact bytesOf_append_lt (UInt32.lt_iff_toNat_lt.mp less) bounded left right

theorem encode_lt_encode {left right : List Char} (less : left < right) :
    encode left < encode right := by
  induction left generalizing right with
  | nil =>
      cases right with
      | nil => exact absurd less (List.not_lt_nil _)
      | cons d right =>
          have nonempty : encode (d :: right) ≠ [] :=
            List.append_ne_nil_of_left_ne_nil (utf8EncodeChar_ne_nil d) _
          obtain ⟨byte, rest, bytes⟩ := List.exists_cons_of_ne_nil nonempty
          rw [bytes]
          exact List.nil_lt_cons byte rest
  | cons c left ih =>
      cases right with
      | nil => exact absurd less (List.not_lt_nil _)
      | cons d right =>
          rcases List.cons_lt_cons_iff.mp less with head | ⟨rfl, tail⟩
          · exact utf8EncodeChar_append_lt head _ _
          · exact List.append_left_lt (ih tail)

theorem encode_append (left right : List Char) :
    encode (left ++ right) = encode left ++ encode right :=
  List.flatMap_append

theorem encode_cons (c : Char) (text : List Char) :
    encode (c :: text) = String.utf8EncodeChar c ++ encode text :=
  List.flatMap_cons

/-! ASCII -/

theorem utf8EncodeChar_of_ascii {c : Char} (ascii : c.toNat < 0x80) :
    String.utf8EncodeChar c = [.ofNat c.toNat] := by
  rw [utf8EncodeChar_eq, bytesOf, if_pos (by omega)]

/-- The bytes of a character beyond ASCII are all beyond ASCII. -/
theorem le_of_mem_utf8EncodeChar {c : Char} (beyond : 0x80 ≤ c.toNat) {byte : UInt8}
    (member : byte ∈ String.utf8EncodeChar c) : 0x80 ≤ byte.toNat := by
  have valid := toNat_valid c
  rw [utf8EncodeChar_eq, bytesOf, if_neg (by omega)] at member
  split_ifs at member <;> simp only [List.mem_cons, List.not_mem_nil, or_false] at member <;>
    rcases member with rfl | rfl | rfl | rfl <;> rw [toNat_ofNat_of_lt] <;> omega

private theorem count_utf8EncodeChar {sign : Char} (ascii : sign.toNat < 0x80) (c : Char) :
    (String.utf8EncodeChar c).count (.ofNat sign.toNat) = if c = sign then 1 else 0 := by
  by_cases plain : c.toNat < 0x80
  · have same : UInt8.ofNat c.toNat = UInt8.ofNat sign.toNat ↔ c = sign := by
      rw [ofNat_eq_iff (by omega), toNat_ofNat_of_lt (by omega), Char.toNat_inj]
    rw [utf8EncodeChar_of_ascii plain, List.count_singleton]
    simp only [beq_iff_eq, same]
  · have different : c ≠ sign := fun same => plain (same ▸ ascii)
    rw [if_neg different, List.count_eq_zero]
    intro member
    have large := le_of_mem_utf8EncodeChar (Nat.le_of_not_lt plain) member
    rw [toNat_ofNat_of_lt (by omega)] at large
    omega

theorem count_encode {sign : Char} (ascii : sign.toNat < 0x80) (text : List Char) :
    (encode text).count (.ofNat sign.toNat) = text.count sign := by
  induction text with
  | nil => rfl
  | cons c text ih =>
      rw [encode_cons, List.count_append, count_utf8EncodeChar ascii, ih, List.count_cons,
        Nat.add_comm]
      simp only [beq_iff_eq]

theorem findIdx?_encode_eq_none {sign : Char} (ascii : sign.toNat < 0x80) {text : List Char}
    (absent : sign ∉ text) : (encode text).findIdx? (· == .ofNat sign.toNat) = none := by
  rw [List.findIdx?_eq_none_iff]
  intro byte member
  rw [beq_eq_false_iff_ne]
  rintro rfl
  rw [← List.count_pos_iff, count_encode ascii, List.count_pos_iff] at member
  exact absent member

/-- A sign of ASCII is found among the bytes where it stands in the text. -/
theorem findIdx?_encode {sign : Char} (ascii : sign.toNat < 0x80) {before after : List Char}
    (first : sign ∉ before) :
    (encode (before ++ sign :: after)).findIdx? (· == .ofNat sign.toNat) =
      some (encode before).length := by
  rw [encode_append, encode_cons, utf8EncodeChar_of_ascii ascii, List.findIdx?_append,
    findIdx?_encode_eq_none ascii first]
  simp [List.findIdx?_cons]

/-! Cuts -/

/-- Whether bytes may be cut at an offset: it is not beyond their end and not inside a character. -/
def mayCut (bytes : List UInt8) (offset : Nat) : Bool :=
  offset ≤ bytes.length && !bytes[offset]?.any isTail

/-- The bytes before an offset and those from it on, if they may be cut there. -/
def cut? (bytes : List UInt8) (offset : Nat) : Option (List UInt8 × List UInt8) :=
  if mayCut bytes offset then some (bytes.take offset, bytes.drop offset) else none

private theorem isTail_head?_encode (text : List Char) :
    (encode text).head?.any isTail = false := by
  cases text with
  | nil => rfl
  | cons c text =>
      have lead : ∀ byte, byte.toNat < 0x80 ∨ 0xC0 ≤ byte.toNat → isTail byte = false := by
        intro byte outside
        rw [Bool.eq_false_iff, ne_eq, isTail_iff]
        omega
      have form := form_utf8EncodeChar c
      rw [encode_cons]
      generalize String.utf8EncodeChar c = bytes at form
      cases form with
      | one small => exact lead _ (.inl small)
      | two first | three first | four first =>
          rw [inRange_iff] at first
          exact lead _ (.inr (by omega))

theorem cut?_encode (left right : List Char) :
    cut? (encode (left ++ right)) (encode left).length = some (encode left, encode right) := by
  have within : mayCut (encode (left ++ right)) (encode left).length = true := by
    have starts := isTail_head?_encode right
    rw [List.head?_eq_getElem?] at starts
    rw [mayCut, encode_append, List.getElem?_append_right (Nat.le_refl _), Nat.sub_self, starts]
    simp
  rw [cut?, if_pos within, encode_append, List.take_left, List.drop_left]

end SnippetAudit.Text.Utf8
