import SnippetAudit.Proofs.Json.Reading

/-!
Written values are spelled by what is written, in either style and at any level, and so they are
read back.

Two things cannot be written as values: a number whose parts are no digits, and an unpaired
surrogate, which stands for no text.
-/

set_option autoImplicit false

namespace SnippetAudit

/-- A numeral whose parts are digits in the places where digits belong. -/
structure Numeral.WellFormed (numeral : Numeral) : Prop where
  whole : Json.WholeDigits numeral.whole
  fraction : ∀ c ∈ numeral.fraction, c.isDigit = true
  exponent : ∀ part ∈ numeral.exponent, Json.Digits part.2

namespace Json

mutual

/-- A value that can be written: its numbers are well-formed, and no string in it is unpaired. -/
def Writable : Json → Prop
  | .null => True
  | .bool _ => True
  | .number numeral => numeral.WellFormed
  | .string _ => True
  | .unpaired => False
  | .array items => ItemsWritable items
  | .object members => MembersWritable members

def ItemsWritable : List Json → Prop
  | [] => True
  | item :: items => Writable item ∧ ItemsWritable items

def MembersWritable : List (String × Json) → Prop
  | [] => True
  | (_, value) :: members => Writable value ∧ MembersWritable members

end

/-! Strings -/

private theorem spellsUnit_control {c : Char} (control : c.toNat < 32) :
    SpellsUnit c.toNat
      ['\\', 'u', '0', '0', hexChar (c.toNat / 16), hexChar (c.toNat % 16)] := by
  have high : c.toNat / 0x1000 = 0 := by omega
  have second : c.toNat / 0x100 % 16 = 0 := by omega
  have third : c.toNat / 0x10 % 16 = c.toNat / 16 := by omega
  refine .digits (by omega) ?_ ?_ ?_ ?_
  · rw [high]
    exact ⟨by decide, .inl rfl⟩
  · rw [second]
    exact ⟨by decide, .inl rfl⟩
  · rw [third]
    exact ⟨by omega, .inl rfl⟩
  · exact ⟨by omega, .inl rfl⟩

private theorem spellsChar_escape (c : Char) : SpellsChar c (escape c) := by
  unfold escape
  split_ifs with quote backslash backspace formFeed lineFeed carriageReturn tab control
  · subst quote; exact .letter (by decide)
  · subst backslash; exact .letter (by decide)
  · subst backspace; exact .letter (by decide)
  · subst formFeed; exact .letter (by decide)
  · subst lineFeed; exact .letter (by decide)
  · subst carriageReturn; exact .letter (by decide)
  · subst tab; exact .letter (by decide)
  · exact .unit (by omega) (spellsUnit_control control)
  · exact .plain (by omega) quote backslash

private theorem spellsChars_escape (chars : List Char) :
    SpellsChars chars (chars.flatMap escape) := by
  induction chars with
  | nil => exact .nil
  | cons c chars ih => exact .cons (spellsChar_escape c) ih

/-- A quoted text with nothing behind it. -/
def quotedText (text : String) : List Char :=
  '"' :: (text.toList.flatMap escape ++ ['"'])

theorem writeQuoted_eq (text : String) (rest : List Char) :
    writeQuoted text.toList rest = quotedText text ++ rest := by
  have body : ∀ chars : List Char,
      chars.foldr (fun c rest => escape c ++ rest) ('"' :: rest) =
        chars.flatMap escape ++ '"' :: rest := by
    intro chars
    induction chars with
    | nil => rfl
    | cons c chars ih => simp [ih]
  simp [writeQuoted, quotedText, body]

theorem spellsString_quotedText (text : String) : SpellsString text (quotedText text) :=
  .quoted (spellsChars_escape text.toList)

/-! Numbers -/

private theorem spellsNumeral_spell {numeral : Numeral} (wellFormed : numeral.WellFormed) :
    SpellsNumeral numeral numeral.spell := by
  have fraction : SpellsFraction numeral.fraction
      (if numeral.fraction.isEmpty then [] else '.' :: numeral.fraction) := by
    cases digits : numeral.fraction with
    | nil => exact .absent
    | cons c rest =>
        refine .present ⟨by simp, ?_⟩
        rw [← digits]
        exact wellFormed.fraction
  simp only [Numeral.spell, List.append_assoc]
  refine .parts wellFormed.whole fraction ?_
  cases part : numeral.exponent with
  | none => exact .absent
  | some signed =>
      obtain ⟨negative, digits⟩ := signed
      have spelled := wellFormed.exponent _ part
      cases negative with
      | true => exact .present (.inl rfl) .minus spelled
      | false => exact .present (.inl rfl) .plus spelled

/-! Blanks -/

theorem newline_eq (style : Style) (level : Nat) (rest : List Char) :
    style.newline level rest = style.newline level [] ++ rest := by
  cases style <;> simp [Style.newline]

private theorem blanks_newline (style : Style) (level : Nat) : Blanks (style.newline level []) := by
  cases style with
  | compact => exact blanks_nil
  | indented =>
      intro c member
      simp only [Style.newline, List.append_nil, List.mem_cons, List.mem_replicate] at member
      rcases member with rfl | ⟨_, rfl⟩ <;> rfl

/-- The blanks that a style sets behind a colon. -/
theorem colon_eq (style : Style) :
    ∃ blanks, Blanks blanks ∧ ∀ rest, style.colon rest = ':' :: (blanks ++ rest) := by
  cases style with
  | compact => exact ⟨[], blanks_nil, fun _ => rfl⟩
  | indented => exact ⟨[' '], by simp [Blanks, isBlank], fun _ => rfl⟩

/-! Values -/

mutual

/-- What is written for a value is a spelling of it, in front of whatever is already there. -/
theorem write_spells (style : Style) (level : Nat) (value : Json) (writable : Writable value) :
    ∃ text, Spells value text ∧ ∀ rest, write style level value rest = text ++ rest := by
  match value with
  | .null => exact ⟨_, .null, fun _ => by simp [write, writeNull]⟩
  | .bool true => exact ⟨_, .boolTrue, fun _ => by simp [write, writeBool]⟩
  | .bool false => exact ⟨_, .boolFalse, fun _ => by simp [write, writeBool]⟩
  | .number numeral =>
      exact ⟨_, .number (spellsNumeral_spell (by simpa [Writable] using writable)),
        fun _ => by simp [write]⟩
  | .string text =>
      exact ⟨_, .string (spellsString_quotedText text), fun rest => by
        rw [write, writeQuoted_eq]⟩
  | .unpaired => simp [Writable] at writable
  | .array [] => exact ⟨_, .emptyArray blanks_nil, fun _ => by simp [write]⟩
  | .array (item :: items) =>
      simp only [Writable, ItemsWritable] at writable
      obtain ⟨text, spelled, written⟩ := write_spells style (level + 1) item writable.1
      obtain ⟨all, allSpelled, allWritten⟩ :=
        writeItems_spells style (level + 1) items writable.2 spelled
          (blanks_newline style (level + 1)) (blanks_newline style level)
      refine ⟨_, .array allSpelled, fun rest => ?_⟩
      rw [write, newline_eq style (level + 1), newline_eq style level, written, allWritten]
      simp
  | .object [] => exact ⟨_, .emptyObject blanks_nil, fun _ => by simp [write]⟩
  | .object ((key, value) :: members) =>
      simp only [Writable, MembersWritable] at writable
      obtain ⟨text, spelled, written⟩ := write_spells style (level + 1) value writable.1
      obtain ⟨all, allSpelled, allWritten⟩ :=
        writeMembers_spells style (level + 1) members writable.2 key spelled
          (blanks_newline style (level + 1)) (blanks_newline style level)
      refine ⟨_, .object allSpelled, fun rest => ?_⟩
      rw [write, newline_eq style (level + 1), newline_eq style level, written, writeQuoted_eq,
        allWritten]
      simp

/-- The items behind one that is already spelled. -/
theorem writeItems_spells (style : Style) (level : Nat) (items : List Json)
    (writable : ItemsWritable items) {item : Json} {before text after : List Char}
    (spelled : Spells item text) (beforeBlank : Blanks before) (afterBlank : Blanks after) :
    ∃ all, SpellsItems (item :: items) all ∧ ∀ rest,
      before ++ (text ++ writeItems style level items (after ++ rest)) = all ++ rest := by
  match items with
  | [] =>
      exact ⟨_, .last (.padded beforeBlank spelled afterBlank), fun rest => by simp [writeItems]⟩
  | next :: items =>
      simp only [ItemsWritable] at writable
      obtain ⟨nextText, nextSpelled, nextWritten⟩ := write_spells style level next writable.1
      obtain ⟨all, allSpelled, allWritten⟩ :=
        writeItems_spells style level items writable.2 nextSpelled (blanks_newline style level)
          afterBlank
      refine ⟨_, .more (.padded beforeBlank spelled blanks_nil) allSpelled, fun rest => ?_⟩
      rw [writeItems, newline_eq, nextWritten, allWritten]
      simp

/-- The members behind one whose value is already spelled. -/
theorem writeMembers_spells (style : Style) (level : Nat) (members : List (String × Json))
    (writable : MembersWritable members) (key : String) {value : Json}
    {before text after : List Char} (spelled : Spells value text) (beforeBlank : Blanks before)
    (afterBlank : Blanks after) :
    ∃ all, SpellsMembers ((key, value) :: members) all ∧ ∀ rest,
      before ++ (quotedText key ++ style.colon
        (text ++ writeMembers style level members (after ++ rest))) = all ++ rest := by
  obtain ⟨blanks, blank, colon⟩ := colon_eq style
  match members with
  | [] =>
      refine ⟨_, .last beforeBlank (spellsString_quotedText key) blanks_nil
        (.padded blank spelled afterBlank), fun rest => ?_⟩
      simp [writeMembers, colon]
  | (nextKey, next) :: members =>
      simp only [MembersWritable] at writable
      obtain ⟨nextText, nextSpelled, nextWritten⟩ := write_spells style level next writable.1
      obtain ⟨all, allSpelled, allWritten⟩ :=
        writeMembers_spells style level members writable.2 nextKey nextSpelled
          (blanks_newline style level) afterBlank
      refine ⟨_, .more beforeBlank (spellsString_quotedText key) blanks_nil
        (.padded blank spelled blanks_nil) allSpelled, fun rest => ?_⟩
      rw [writeMembers, newline_eq, writeQuoted_eq, nextWritten, allWritten, colon]
      simp

end

/-- Reading undoes writing. -/
theorem read?_write (style : Style) (level : Nat) {value : Json} (writable : Writable value) :
    read? (write style level value []) = some value := by
  obtain ⟨text, spelled, written⟩ := write_spells style level value writable
  rw [written, List.append_nil]
  have padded := read?_spelled (.padded blanks_nil spelled blanks_nil)
  simpa using padded

/-! Items in the text of an array -/

theorem write_eq_append (style : Style) (level : Nat) {value : Json} (writable : Writable value)
    (rest : List Char) : write style level value rest = write style level value [] ++ rest := by
  obtain ⟨text, _, written⟩ := write_spells style level value writable
  rw [written, written [], List.append_nil]

/-- A text behind a mark, blanks and another text. -/
theorem infix_behind {text tail : List Char} (inside : text <:+: tail) (mark : Char)
    (blanks first : List Char) : text <:+: mark :: (blanks ++ (first ++ tail)) :=
  List.infix_cons
    (inside.trans ((List.suffix_append first tail).trans (List.suffix_append blanks _)).isInfix)

private theorem infix_writeItems (style : Style) (level : Nat) {items : List Json} {item : Json}
    (writable : ∀ item ∈ items, Writable item) (member : item ∈ items) (rest : List Char) :
    write style level item [] <:+: writeItems style level items rest := by
  induction items with
  | nil => cases member
  | cons first items ih =>
      rw [writeItems, newline_eq, write_eq_append style level (writable first (by simp))]
      rcases List.mem_cons.mp member with rfl | later
      · exact List.infix_cons (List.infix_append' _ _ _)
      · exact infix_behind (ih (fun item inside => writable item (by simp [inside])) later) _ _ _

/-- The text of an array holds the text of every item, one level deeper. -/
theorem infix_write_array (style : Style) (level : Nat) {items : List Json} {item : Json}
    (writable : ∀ item ∈ items, Writable item) (member : item ∈ items) :
    write style (level + 1) item [] <:+: write style level (.array items) [] := by
  cases items with
  | nil => cases member
  | cons first items =>
      rw [write, newline_eq, write_eq_append style (level + 1) (writable first (by simp))]
      rcases List.mem_cons.mp member with rfl | later
      · exact List.infix_cons (List.infix_append' _ _ _)
      · exact infix_behind (infix_writeItems style (level + 1)
          (fun item inside => writable item (by simp [inside])) later _) _ _ _

end Json

end SnippetAudit
