import Mathlib.Data.Char
import SnippetAudit.Proofs.Text.Encoding
import SnippetAudit.Proofs.Text.Lines

/-!
How bytes are cut into characters and faults.

A fault stands where no character does: it is the longest piece there that starts the form of some
character, or a single byte if none does. All bytes have a cut, and decoding follows it, with one
replacement character for each fault. As a replacement takes three bytes and a fault at most
three, the text is never shorter than the bytes.
-/

set_option autoImplicit false

namespace SnippetAudit.Text.Utf8

/-- Bytes that the form of some character starts with. -/
def Starts (bytes : List UInt8) : Prop :=
  ∃ c : Char, bytes <+: String.utf8EncodeChar c

/-- `Fault piece rest` says that the piece, in front of the rest, is not UTF-8. -/
structure Fault (piece rest : List UInt8) : Prop where
  noCharacter : ∀ c : Char, ¬ String.utf8EncodeChar c <+: piece ++ rest
  start : piece.length = 1 ∨ (piece ≠ [] ∧ Starts piece)
  longest : ∀ longer, longer <+: piece ++ rest → Starts longer → longer.length ≤ piece.length

inductive Piece where
  | character (c : Char)
  | fault (bytes : List UInt8)

/-- The cut of bytes into characters and faults, from the left. -/
inductive Cut : List UInt8 → List Piece → Prop where
  | nil : Cut [] []
  | character {c : Char} {rest : List UInt8} {pieces : List Piece} :
      Cut rest pieces → Cut (String.utf8EncodeChar c ++ rest) (.character c :: pieces)
  | fault {piece rest : List UInt8} {pieces : List Piece} :
      Fault piece rest → Cut rest pieces → Cut (piece ++ rest) (.fault piece :: pieces)

/-! Starts of forms -/

theorem starts_iff {bytes : List UInt8} : Starts bytes ↔ ∃ form, Form form ∧ bytes <+: form := by
  constructor
  · rintro ⟨c, inside⟩
    exact ⟨_, form_utf8EncodeChar c, inside⟩
  · rintro ⟨form, isForm, inside⟩
    obtain ⟨c, rfl⟩ := isForm.exists_eq
    exact ⟨c, inside⟩

theorem Starts.of_isPrefix {left right : List UInt8} (starts : Starts right)
    (inside : left <+: right) : Starts left := by
  obtain ⟨c, form⟩ := starts
  exact ⟨c, inside.trans form⟩

theorem lead_of_starts {lead : UInt8} (starts : Starts [lead]) :
    lead.toNat < 0x80 ∨ inRange 0xC2 0xDF lead = true ∨ inRange 0xE0 0xEF lead = true ∨
      inRange 0xF0 0xF4 lead = true := by
  obtain ⟨form, isForm, inside⟩ := starts_iff.mp starts
  cases isForm <;> simp_all [List.cons_prefix_cons]

/-- The second byte of a form, by the kind of its leading byte. -/
theorem second_of_starts {lead b : UInt8} (starts : Starts [lead, b]) :
    (inRange 0xC2 0xDF lead = true → isTail b = true) ∧
      (inRange 0xE0 0xEF lead = true → secondOfThree lead b = true) ∧
      (inRange 0xF0 0xF4 lead = true → secondOfFour lead b = true) := by
  obtain ⟨form, isForm, inside⟩ := starts_iff.mp starts
  simp only [inRange_iff]
  cases isForm with
  | one => simp at inside
  | two isLead tail =>
      obtain ⟨rfl, rfl, _⟩ := by simpa using inside
      rw [inRange_iff] at isLead
      exact ⟨fun _ => tail, by omega, by omega⟩
  | three isLead second =>
      obtain ⟨rfl, rfl⟩ := by simpa using inside
      rw [inRange_iff] at isLead
      exact ⟨by omega, fun _ => second, by omega⟩
  | four isLead second =>
      obtain ⟨rfl, rfl⟩ := by simpa using inside
      rw [inRange_iff] at isLead
      exact ⟨by omega, by omega, fun _ => second⟩

private theorem third_of_starts {lead b c : UInt8} (starts : Starts [lead, b, c]) :
    isTail c = true := by
  obtain ⟨form, isForm, inside⟩ := starts_iff.mp starts
  cases isForm <;> simp_all [List.cons_prefix_cons]

private theorem fourth_of_starts {lead b c d : UInt8} (starts : Starts [lead, b, c, d]) :
    isTail d = true := by
  obtain ⟨form, isForm, inside⟩ := starts_iff.mp starts
  cases isForm <;> simp_all [List.cons_prefix_cons]

private theorem exists_secondOfThree {lead : UInt8} (isLead : inRange 0xE0 0xEF lead = true) :
    ∃ b, secondOfThree lead b = true := by
  rw [inRange_iff] at isLead
  by_cases first : lead.toNat = 0xE0
  · exact ⟨0xA0, secondOfThree_iff.mpr (.inl ⟨first, by decide, by decide⟩)⟩
  · have byte : (0x80 : UInt8).toNat = 0x80 := rfl
    exact ⟨0x80, secondOfThree_iff.mpr (.inr (by omega))⟩

private theorem exists_secondOfFour {lead : UInt8} (isLead : inRange 0xF0 0xF4 lead = true) :
    ∃ b, secondOfFour lead b = true := by
  rw [inRange_iff] at isLead
  by_cases first : lead.toNat = 0xF0
  · exact ⟨0x90, secondOfFour_iff.mpr (.inl ⟨first, by decide, by decide⟩)⟩
  · have byte : (0x80 : UInt8).toNat = 0x80 := rfl
    exact ⟨0x80, secondOfFour_iff.mpr (.inr (by omega))⟩

/-! Faults -/

/-- A byte that starts no character is a fault. -/
theorem fault_of_alien {byte : UInt8} (alien : ¬ Starts [byte]) (rest : List UInt8) :
    Fault [byte] rest := by
  have nothing : ∀ longer, longer <+: byte :: rest → Starts longer → longer = [] := by
    intro longer inside starts
    cases longer with
    | nil => rfl
    | cons first others =>
        obtain ⟨rfl, _⟩ := List.cons_prefix_cons.mp inside
        exact absurd (starts.of_isPrefix ⟨others, rfl⟩) alien
  refine ⟨fun c inside => ?_, .inl rfl, fun longer inside starts => ?_⟩
  · exact utf8EncodeChar_ne_nil c (nothing _ inside ⟨c, List.prefix_rfl⟩)
  · rw [nothing longer inside starts]
    simp

/-- A piece that starts a form and is not all of it. -/
def Opens (piece : List UInt8) : Prop :=
  piece ≠ [] ∧ ∃ more, more ≠ [] ∧ Form (piece ++ more)

private theorem fault_of_opens {piece rest : List UInt8} (opens : Opens piece)
    (stops : ∀ byte others, rest = byte :: others → ¬ Starts (piece ++ [byte])) :
    Fault piece rest := by
  obtain ⟨nonempty, more, left, form⟩ := opens
  have longest : ∀ longer, longer <+: piece ++ rest → Starts longer →
      longer.length ≤ piece.length := by
    intro longer inside starts
    by_contra further
    obtain ⟨others, rfl⟩ : piece <+: longer :=
      List.prefix_of_prefix_length_le (List.prefix_append piece rest) inside (by omega)
    cases others with
    | nil => simp at further
    | cons byte others =>
        rw [List.prefix_append_right_inj] at inside
        obtain ⟨behind, rfl⟩ := inside
        exact stops byte _ rfl (starts.of_isPrefix ⟨others, by simp⟩)
  refine ⟨fun c inside => ?_, .inr ⟨nonempty, starts_iff.mpr ⟨_, form, more, rfl⟩⟩, longest⟩
  have short := longest _ inside ⟨c, List.prefix_rfl⟩
  have within : String.utf8EncodeChar c <+: piece :=
    List.prefix_of_prefix_length_le inside (List.prefix_append piece rest) short
  -- A character inside the piece would be a form that starts another.
  rw [(form_utf8EncodeChar c).eq_of_isPrefix form (within.trans ⟨more, rfl⟩), List.length_append]
    at short
  exact left (List.eq_nil_of_length_eq_zero (by omega))

private theorem fault_of_end {piece : List UInt8} (opens : Opens piece) : Fault piece [] :=
  fault_of_opens opens (by simp)

private theorem fault_of_next {piece : List UInt8} {byte : UInt8} (opens : Opens piece)
    (stops : ¬ Starts (piece ++ [byte])) (rest : List UInt8) : Fault piece (byte :: rest) := by
  refine fault_of_opens opens ?_
  rintro byte others ⟨⟩
  exact stops

/-! One step -/

/-- What a step of decoding can find at the start of bytes, and how many bytes it takes. -/
inductive Step (bytes : List UInt8) : Option Char × Nat → Prop where
  | character {c : Char} {rest : List UInt8} :
      bytes = String.utf8EncodeChar c ++ rest →
      Step bytes (some c, (String.utf8EncodeChar c).length)
  | fault {piece rest : List UInt8} :
      bytes = piece ++ rest → Fault piece rest → Step bytes (none, piece.length)

private theorem step_of_form {c : Char} {form : List UInt8} (same : String.utf8EncodeChar c = form)
    (rest : List UInt8) : Step (form ++ rest) (some c, form.length) := by
  subst same
  exact .character rfl

private theorem step_of_fault {piece rest : List UInt8} (fault : Fault piece rest) :
    Step (piece ++ rest) (none, piece.length) :=
  .fault rfl fault

private theorem step_two {lead : UInt8} (isLead : inRange 0xC2 0xDF lead = true)
    (rest : List UInt8) : Step (lead :: rest) (next lead rest) := by
  have large : ¬ lead.toNat < 0x80 := by
    rw [inRange_iff] at isLead
    omega
  have opens : Opens [lead] := ⟨by simp, [0x80], by simp, .two isLead rfl⟩
  cases rest with
  | nil =>
      simp only [next, if_neg large, if_pos isLead, List.head?_nil]
      exact step_of_fault (fault_of_end opens)
  | cons b rest =>
      simp only [next, if_neg large, if_pos isLead, List.head?_cons]
      split_ifs with tail
      · exact step_of_form (utf8EncodeChar_two isLead tail) rest
      · exact step_of_fault
          (fault_of_next opens (fun starts => tail ((second_of_starts starts).1 isLead)) rest)

private theorem step_three {lead : UInt8} (isLead : inRange 0xE0 0xEF lead = true)
    (rest : List UInt8) : Step (lead :: rest) (next lead rest) := by
  have large : ¬ lead.toNat < 0x80 := by
    rw [inRange_iff] at isLead
    omega
  have notTwo : ¬ inRange 0xC2 0xDF lead = true := by
    rw [inRange_iff] at isLead ⊢
    omega
  have opens : Opens [lead] := by
    obtain ⟨fitting, fits⟩ := exists_secondOfThree isLead
    exact ⟨by simp, [fitting, 0x80], by simp, .three isLead fits rfl⟩
  have opensTwo : ∀ b, secondOfThree lead b = true → Opens [lead, b] := fun b second =>
    ⟨by simp, [0x80], by simp, .three isLead second rfl⟩
  cases rest with
  | nil =>
      simp only [next, if_neg large, if_neg notTwo, if_pos isLead, List.head?_nil]
      exact step_of_fault (fault_of_end opens)
  | cons b rest =>
      by_cases second : secondOfThree lead b = true
      · cases rest with
        | nil =>
            have taken : next lead [b] = (none, 2) := by
              simp [next, large, notTwo, isLead, second]
            rw [taken]
            exact step_of_fault (fault_of_end (opensTwo b second))
        | cons c rest =>
            have taken : next lead (b :: c :: rest) =
                if isTail c = true then (some (build (lead.toNat % 16) [b, c]), 3)
                else (none, 2) := by
              simp [next, large, notTwo, isLead, second]
            rw [taken]
            split_ifs with tail
            · exact step_of_form (utf8EncodeChar_three isLead second tail) rest
            · exact step_of_fault (fault_of_next (opensTwo b second)
                (fun starts => tail (third_of_starts starts)) rest)
      · have taken : next lead (b :: rest) = (none, 1) := by
          cases rest <;> simp [next, large, notTwo, isLead, second]
        rw [taken]
        exact step_of_fault
          (fault_of_next opens (fun starts => second ((second_of_starts starts).2.1 isLead)) rest)

private theorem step_four {lead : UInt8} (isLead : inRange 0xF0 0xF4 lead = true)
    (rest : List UInt8) : Step (lead :: rest) (next lead rest) := by
  have bounds := inRange_iff.mp isLead
  have large : ¬ lead.toNat < 0x80 := by omega
  have notTwo : ¬ inRange 0xC2 0xDF lead = true := by
    rw [inRange_iff]
    omega
  have notThree : ¬ inRange 0xE0 0xEF lead = true := by
    rw [inRange_iff]
    omega
  have opens : Opens [lead] := by
    obtain ⟨fitting, fits⟩ := exists_secondOfFour isLead
    exact ⟨by simp, [fitting, 0x80, 0x80], by simp, .four isLead fits rfl rfl⟩
  cases rest with
  | nil =>
      simp only [next, if_neg large, if_neg notTwo, if_neg notThree, if_pos isLead, List.head?_nil]
      exact step_of_fault (fault_of_end opens)
  | cons b rest =>
      by_cases second : secondOfFour lead b = true
      · have opensTwo : Opens [lead, b] :=
          ⟨by simp, [0x80, 0x80], by simp, .four isLead second rfl rfl⟩
        cases rest with
        | nil =>
            have taken : next lead [b] = (none, 2) := by
              simp [next, large, notTwo, notThree, isLead, second]
            rw [taken]
            exact step_of_fault (fault_of_end opensTwo)
        | cons c rest =>
            by_cases third : isTail c = true
            · have opensThree : Opens [lead, b, c] :=
                ⟨by simp, [0x80], by simp, .four isLead second third rfl⟩
              cases rest with
              | nil =>
                  have taken : next lead [b, c] = (none, 3) := by
                    simp [next, large, notTwo, notThree, isLead, second, third]
                  rw [taken]
                  exact step_of_fault (fault_of_end opensThree)
              | cons d rest =>
                  have taken : next lead (b :: c :: d :: rest) =
                      if isTail d = true then (some (build (lead.toNat % 8) [b, c, d]), 4)
                      else (none, 3) := by
                    simp [next, large, notTwo, notThree, isLead, second, third]
                  rw [taken]
                  split_ifs with fourth
                  · exact step_of_form (utf8EncodeChar_four isLead second third fourth) rest
                  · exact step_of_fault (fault_of_next opensThree
                      (fun starts => fourth (fourth_of_starts starts)) rest)
            · have taken : next lead (b :: c :: rest) = (none, 2) := by
                cases rest <;> simp [next, large, notTwo, notThree, isLead, second, third]
              rw [taken]
              exact step_of_fault (fault_of_next opensTwo
                (fun starts => third (third_of_starts starts)) rest)
      · have taken : next lead (b :: rest) = (none, 1) := by
          cases rest with
          | nil => simp [next, large, notTwo, notThree, isLead, second]
          | cons c rest =>
              cases rest <;> simp [next, large, notTwo, notThree, isLead, second]
        rw [taken]
        exact step_of_fault
          (fault_of_next opens (fun starts => second ((second_of_starts starts).2.2 isLead)) rest)

private theorem next_step (lead : UInt8) (rest : List UInt8) :
    Step (lead :: rest) (next lead rest) := by
  by_cases one : lead.toNat < 0x80
  · simp only [next, if_pos one]
    exact step_of_form (utf8EncodeChar_one one) rest
  by_cases two : inRange 0xC2 0xDF lead = true
  · exact step_two two rest
  by_cases three : inRange 0xE0 0xEF lead = true
  · exact step_three three rest
  by_cases four : inRange 0xF0 0xF4 lead = true
  · exact step_four four rest
  · simp only [next, if_neg one, if_neg two, if_neg three, if_neg four]
    have alien : ¬ Starts [lead] := by
      intro starts
      rcases lead_of_starts starts with isOne | isTwo | isThree | isFour
      · exact one isOne
      · exact two isTwo
      · exact three isThree
      · exact four isFour
    exact step_of_fault (fault_of_alien alien rest)

/-! What a step finds is all there is to find -/

theorem Fault.length_pos {piece rest : List UInt8} (fault : Fault piece rest) :
    0 < piece.length := by
  rcases fault.start with one | ⟨nonempty, _⟩
  · omega
  · exact List.length_pos_iff.mpr nonempty

theorem Fault.length_le {piece rest : List UInt8} (fault : Fault piece rest) :
    piece.length ≤ 3 := by
  rcases fault.start with one | ⟨_, c, inside⟩
  · omega
  · by_contra long
    have bound : (String.utf8EncodeChar c).length ≤ piece.length := by
      have form := form_utf8EncodeChar c
      generalize String.utf8EncodeChar c = bytes at form
      cases form <;> simp <;> omega
    -- Four bytes are all of a form, and then a character stands there.
    refine fault.noCharacter c ?_
    rw [← inside.eq_of_length (Nat.le_antisymm inside.length_le bound)]
    exact List.prefix_append piece rest

theorem utf8EncodeChar_injective {c d : Char} {left right : List UInt8}
    (same : String.utf8EncodeChar c ++ left = String.utf8EncodeChar d ++ right) : c = d := by
  rcases lt_trichotomy c d with less | equal | greater
  · exact absurd (same ▸ utf8EncodeChar_append_lt less left right) (List.lt_irrefl _)
  · exact equal
  · exact absurd (same ▸ utf8EncodeChar_append_lt greater right left) (List.lt_irrefl _)

theorem Fault.length_le_of_isPrefix {piece rest other behind : List UInt8}
    (fault : Fault piece rest) (otherFault : Fault other behind)
    (same : piece ++ rest = other ++ behind) : other.length ≤ piece.length := by
  have inside : other <+: piece ++ rest := ⟨behind, same.symm⟩
  rcases otherFault.start with one | ⟨_, starts⟩
  · have := fault.length_pos
    omega
  · exact fault.longest other inside starts

theorem Step.eq_character {c : Char} {rest : List UInt8} {found : Option Char × Nat}
    (step : Step (String.utf8EncodeChar c ++ rest) found) :
    found = (some c, (String.utf8EncodeChar c).length) := by
  cases step with
  | character same => rw [utf8EncodeChar_injective same]
  | fault same fault => exact absurd (same ▸ List.prefix_append _ _) (fault.noCharacter c)

theorem Step.eq_fault {piece rest : List UInt8} {found : Option Char × Nat}
    (fault : Fault piece rest) (step : Step (piece ++ rest) found) :
    found = (none, piece.length) := by
  cases step with
  | character same => exact absurd ⟨_, same.symm⟩ (fault.noCharacter _)
  | fault same other =>
      rw [Nat.le_antisymm (fault.length_le_of_isPrefix other same)
        (other.length_le_of_isPrefix fault same.symm)]

/-! Whole texts -/

theorem exists_cut (bytes : List UInt8) : ∃ cut, Cut bytes cut := by
  induction size : bytes.length using Nat.strong_induction_on generalizing bytes with
  | h n ih =>
      cases bytes with
      | nil => exact ⟨[], .nil⟩
      | cons lead rest =>
          have step := next_step lead rest
          generalize next lead rest = found at step
          cases step with
          | @character c rest same =>
              have positive := List.length_pos_iff.mpr (utf8EncodeChar_ne_nil c)
              rw [same, List.length_append] at size
              obtain ⟨cut, isCut⟩ := ih _ (by omega) rest rfl
              exact ⟨_, same ▸ isCut.character⟩
          | @fault piece rest same fault =>
              have positive := fault.length_pos
              rw [same, List.length_append] at size
              obtain ⟨cut, isCut⟩ := ih _ (by omega) rest rfl
              exact ⟨_, same ▸ isCut.fault fault⟩

/-- The character that a piece is, if it is one. -/
def Piece.char? : Piece → Option Char
  | .character c => some c
  | .fault _ => none

private theorem decodeFrom_skip (done : List (Option Char)) (skip : Nat) (bytes : List UInt8) :
    decodeFrom done skip bytes = decodeFrom done 0 (bytes.drop skip) := by
  induction bytes generalizing skip with
  | nil => simp [decodeFrom]
  | cons byte bytes ih =>
      cases skip with
      | zero => rfl
      | succ skip => exact ih skip

/-- A step takes its bytes and leaves the rest. -/
theorem decodeFrom_append (done : List (Option Char)) {piece rest : List UInt8}
    {found : Option Char} (nonempty : piece ≠ [])
    (step : ∀ result, Step (piece ++ rest) result → result = (found, piece.length)) :
    decodeFrom done 0 (piece ++ rest) = decodeFrom (found :: done) 0 rest := by
  cases piece with
  | nil => exact absurd rfl nonempty
  | cons lead tail =>
      have taken := step _ (next_step lead (tail ++ rest))
      rw [List.cons_append, decodeFrom, taken]
      exact (decodeFrom_skip _ _ _).trans (by simp)

theorem Cut.decodeFrom_eq {bytes : List UInt8} {cut : List Piece} (isCut : Cut bytes cut)
    (done : List (Option Char)) :
    decodeFrom done 0 bytes = (cut.map Piece.char?).reverse ++ done := by
  induction isCut generalizing done with
  | nil => rfl
  | @character c rest pieces _ ih =>
      rw [decodeFrom_append done (utf8EncodeChar_ne_nil c) fun _ => Step.eq_character, ih]
      simp [Piece.char?]
  | fault isFault _ ih =>
      have nonempty := List.length_pos_iff.mp isFault.length_pos
      rw [decodeFrom_append done nonempty fun _ => Step.eq_fault isFault, ih]
      simp [Piece.char?]

theorem Cut.decodeLossy_eq {bytes : List UInt8} {cut : List Piece} (isCut : Cut bytes cut) :
    decodeLossy bytes = cut.map fun piece => piece.char?.getD replacement := by
  rw [decodeLossy, pieces, isCut.decodeFrom_eq, List.append_nil, List.reverse_reverse, List.map_map]
  rfl

theorem cut_encode (text : List Char) : Cut (encode text) (text.map .character) := by
  induction text with
  | nil => exact .nil
  | cons c text ih => exact .character ih

/-! Bytes that are text -/

theorem Cut.eq_encode {bytes : List UInt8} {cut : List Piece} (isCut : Cut bytes cut)
    {text : List Char} (characters : cut.map Piece.char? = text.map some) :
    bytes = encode text := by
  induction isCut generalizing text with
  | nil => rw [List.map_eq_nil_iff.mp characters.symm, encode, List.flatMap_nil]
  | character _ ih =>
      cases text with
      | nil => contradiction
      | cons d text =>
          obtain ⟨same, rest⟩ := List.cons.inj characters
          rw [encode_cons, ih rest, Option.some.inj same]
  | fault => cases text <;> simp [Piece.char?] at characters

theorem pieces_eq_map_some_iff {bytes : List UInt8} {text : List Char} :
    pieces bytes = text.map some ↔ bytes = encode text := by
  constructor
  · intro characters
    obtain ⟨cut, isCut⟩ := exists_cut bytes
    rw [pieces, isCut.decodeFrom_eq, List.append_nil, List.reverse_reverse] at characters
    exact isCut.eq_encode characters
  · rintro rfl
    rw [pieces, (cut_encode text).decodeFrom_eq, List.append_nil, List.reverse_reverse,
      List.map_map]
    rfl

/-- Only the bytes of a text can be read as that text. -/
theorem decode?_eq_some_iff {bytes : List UInt8} {text : List Char} :
    decode? bytes = some text ↔ bytes = encode text := by
  rw [← pieces_eq_map_some_iff, decode?]
  generalize pieces bytes = items
  induction items generalizing text with
  | nil => cases text <;> simp
  | cons item items ih =>
      cases item with
      | none => cases text <;> simp
      | some c =>
          simp only [List.mapM_cons, id, Option.bind_eq_bind, Option.bind_some,
            Option.bind_eq_some_iff, ih]
          cases text <;> simp [and_comm]

/-- A text without replacements was not made from any other bytes. -/
theorem eq_encode_of_decodeLossy_eq {bytes : List UInt8} {text : List Char}
    (whole : replacement ∉ text) (shown : decodeLossy bytes = text) : bytes = encode text := by
  rw [← pieces_eq_map_some_iff]
  rw [decodeLossy] at shown
  generalize pieces bytes = items at shown
  subst shown
  induction items with
  | nil => rfl
  | cons item items ih =>
      cases item with
      | none => simp at whole
      | some c => simpa using ih fun inside => whole (List.mem_cons_of_mem _ inside)

theorem decodeLossy_encode (text : List Char) : decodeLossy (encode text) = text := by
  rw [decodeLossy, pieces_eq_map_some_iff.mpr rfl, List.map_map]
  exact List.map_id text

/-- Text starts with a sign of a single byte if the bytes start with that byte. -/
theorem head?_decodeLossy_iff {sign : Char} (ascii : sign.toNat < 0x80) {bytes : List UInt8} :
    (decodeLossy bytes).head? = some sign ↔ bytes.head? = some (UInt8.ofNat sign.toNat) := by
  have starts : bytes.head? = some (UInt8.ofNat sign.toNat) ↔
      ∃ rest, bytes = String.utf8EncodeChar sign ++ rest := by
    rw [utf8EncodeChar_of_ascii ascii]
    cases bytes <;> simp
  obtain ⟨cut, isCut⟩ := exists_cut bytes
  rw [starts, isCut.decodeLossy_eq]
  cases isCut with
  | nil => simp
  | @character c rest pieces isCut =>
      rw [List.map_cons, List.head?_cons, Option.some_inj]
      constructor
      · rintro rfl
        exact ⟨rest, rfl⟩
      · rintro ⟨behind, same⟩
        exact utf8EncodeChar_injective same
  | @fault piece rest pieces isFault isCut =>
      refine iff_of_false ?_ ?_
      · rw [List.map_cons, List.head?_cons, Option.some_inj]
        intro same
        change replacement = sign at same
        exact absurd (same ▸ ascii) (by decide)
      · rintro ⟨behind, same⟩
        exact isFault.noCharacter sign ⟨behind, same.symm⟩

/-! Lengths -/

/-- How many bytes longer the text is than what is cut: three for each fault, less its own. -/
def added : List Piece → Nat
  | [] => 0
  | .character _ :: pieces => added pieces
  | .fault bytes :: pieces => 3 - bytes.length + added pieces

theorem added_characters (text : List Char) : added (text.map .character) = 0 := by
  induction text with
  | nil => rfl
  | cons c text ih => exact ih

theorem Cut.byteLength_eq {bytes : List UInt8} {cut : List Piece} (isCut : Cut bytes cut) :
    byteLength (decodeLossy bytes) = bytes.length + added cut := by
  rw [isCut.decodeLossy_eq]
  induction isCut with
  | nil => rfl
  | @character c rest pieces _ ih =>
      rw [List.map_cons, byteLength_cons, ih, List.length_append, String.length_utf8EncodeChar,
        added, Nat.add_assoc]
      rfl
  | @fault piece rest pieces fault _ ih =>
      have short := fault.length_le
      have three : replacement.utf8Size = 3 := by decide
      rw [List.map_cons, byteLength_cons, ih, List.length_append, added]
      change replacement.utf8Size + _ = _
      omega

theorem Cut.added_le {bytes : List UInt8} {cut : List Piece} (isCut : Cut bytes cut) :
    added cut ≤ 2 * bytes.length := by
  induction isCut with
  | nil => exact Nat.le_refl 0
  | character _ ih =>
      rw [added, List.length_append]
      omega
  | fault fault _ ih =>
      have positive := fault.length_pos
      rw [added, List.length_append]
      omega

end SnippetAudit.Text.Utf8
