import SnippetAudit.Proofs.Decimal.ReadBack
import SnippetAudit.Toml.Reader

/-!
Documents of plain lines: headers of tables, integers given to bare keys, and blank lines.

Each line is read whole, wherever its text ends, and does one thing to the tables. So the document
is read by applying its lines in order, and the budget of the reader is never the reason for a
refusal.
-/

set_option autoImplicit false

namespace SnippetAudit.Toml

/-- A key that needs no quotes. -/
structure BareKey where
  chars : List Char
  nonempty : chars ≠ []
  bare : ∀ c ∈ chars, isBareChar c = true

def BareKey.name (key : BareKey) : String :=
  String.ofList key.chars

/-- A line of a document that has tables of integers only. -/
inductive Line where
  | blank
  | header (key : BareKey)
  | assignment (key : BareKey) (value : Int)

def decimal (value : Int) : List Char :=
  if value < 0 then '-' :: Numeral.digitsOf value.natAbs else Numeral.digitsOf value.natAbs

def Line.text : Line → List Char
  | .blank => []
  | .header key => '[' :: (key.chars ++ [']'])
  | .assignment key value => key.chars ++ ([' ', '=', ' '] ++ decimal value)

/-- Lines with line feeds between them. -/
def linesText (lines : List Line) : List Char :=
  ['\n'].intercalate (lines.map Line.text)

/-- What follows a line, and what is left once the line is ended. -/
inductive Ends : List Char → List Char → Prop where
  | last : Ends [] []
  | feed {rest : List Char} : Ends ('\n' :: rest) rest

theorem Ends.readLineEnd_eq {tail rest : List Char} (ends : Ends tail rest) :
    readLineEnd tail = some rest := by
  cases ends <;> rfl

/-! Keys -/

private theorem ne_of_holds {holds : Char → Bool} {c other : Char} (isTrue : holds c = true)
    (isFalse : holds other = false) : c ≠ other := by
  rintro rfl
  rw [isTrue] at isFalse
  cases isFalse

theorem skipBlanks_cons {c : Char} (notSpace : c ≠ ' ') (notTab : c ≠ '\t') (rest : List Char) :
    skipBlanks (c :: rest) = c :: rest := by
  simp [skipBlanks, notSpace, notTab]

private theorem skipBlanks_space (rest : List Char) :
    skipBlanks (' ' :: rest) = skipBlanks rest := by
  simp [skipBlanks]

theorem BareKey.exists_cons (key : BareKey) :
    ∃ first others, key.chars = first :: others ∧ isBareChar first = true := by
  obtain ⟨first, others, split⟩ := List.exists_cons_of_ne_nil key.nonempty
  exact ⟨first, others, split, key.bare first (split ▸ List.mem_cons_self)⟩

theorem BareKey.skipBlanks_append (key : BareKey) (rest : List Char) :
    skipBlanks (key.chars ++ rest) = key.chars ++ rest := by
  obtain ⟨first, others, split, bare⟩ := key.exists_cons
  rw [split, List.cons_append, skipBlanks_cons (ne_of_holds bare (by decide))
    (ne_of_holds bare (by decide))]

private theorem readKey_bare (key : BareKey) {stop : Char} (notBare : isBareChar stop = false)
    (rest : List Char) :
    readKey (key.chars ++ stop :: rest) = some (key.name, stop :: rest) := by
  obtain ⟨first, others, split, bare⟩ := key.exists_cons
  have noQuote : first ≠ '"' := ne_of_holds bare (by decide)
  have noApostrophe : first ≠ '\x27' := ne_of_holds bare (by decide)
  have taken : (key.chars ++ stop :: rest).takeWhile isBareChar = key.chars := by
    rw [List.takeWhile_append_of_pos key.bare, List.takeWhile_cons_of_neg (by simp [notBare]),
      List.append_nil]
  have dropped : (key.chars ++ stop :: rest).dropWhile isBareChar = stop :: rest := by
    rw [List.dropWhile_append_of_pos key.bare, List.dropWhile_cons_of_neg (by simp [notBare])]
  rw [split, List.cons_append] at taken dropped
  simp only [split, List.cons_append, readKey, noQuote, noApostrophe, decide_false, Bool.or_self,
    Bool.false_eq_true, if_false, bare, if_true, taken, dropped]
  rw [BareKey.name, split]

private theorem readPath_bare (key : BareKey) {stop next : Char} {rest after : List Char}
    (notBare : isBareChar stop = false) (skipped : skipBlanks (stop :: rest) = next :: after)
    (notDot : next ≠ '.') :
    readPath (key.chars ++ stop :: rest) = some (([], key.name), next :: after) := by
  change readDotted (78 + 1) _ = _
  rw [readDotted, key.skipBlanks_append, readKey_bare key notBare]
  simp [skipped, notDot]

/-! Integers -/

theorem Ends.dropWhile_append {tail rest digits : List Char} (ends : Ends tail rest)
    (digitsOnly : ∀ c ∈ digits, c.isDigit = true) :
    (digits ++ tail).dropWhile Char.isDigit = tail := by
  rw [List.dropWhile_append_of_pos digitsOnly]
  cases ends <;> rfl

theorem Ends.head?_ne {tail rest : List Char} (ends : Ends tail rest) {c : Char}
    (other : c ≠ '\n') : tail.head? ≠ some c := by
  cases ends with
  | last => simp
  | feed => simpa using other.symm

/-- The text starts with digits and then the mark. -/
def Marked (mark : Char) (text : List Char) : Prop :=
  (∃ rest, text.dropWhile Char.isDigit = mark :: rest) ∧ text.head? ≠ some '-'

private theorem marked_of_startsDate {text : List Char} (starts : startsDate text = true) :
    Marked '-' text := by
  unfold startsDate at starts
  split at starts
  · next a b c d rest =>
      simp only [Bool.and_eq_true] at starts
      obtain ⟨⟨⟨first, second⟩, third⟩, fourth⟩ := starts
      refine ⟨⟨rest, by simp [first, second, third, fourth]⟩, ?_⟩
      rintro ⟨⟩
      cases first
  · cases starts

private theorem marked_of_startsTime {text : List Char} (starts : startsTime text = true) :
    Marked ':' text := by
  unfold startsTime at starts
  split at starts
  · next a b rest =>
      simp only [Bool.and_eq_true] at starts
      obtain ⟨first, second⟩ := starts
      refine ⟨⟨rest, by simp [first, second]⟩, ?_⟩
      rintro ⟨⟩
      cases first
  · cases starts

/-- Behind the digits of an integer nothing follows but the end of the line. -/
theorem Ends.not_marked {tail rest : List Char} (ends : Ends tail rest) (value : Int) {mark : Char}
    (other : mark ≠ '\n') : ¬ Marked mark (decimal value ++ tail) := by
  rintro ⟨⟨after, dropped⟩, unsigned⟩
  unfold decimal at dropped unsigned
  split at dropped
  · next negative => exact unsigned (by rw [if_pos negative]; rfl)
  · rw [ends.dropWhile_append fun _ => Numeral.digitsOf_isDigit] at dropped
    exact ends.head?_ne other (congrArg List.head? dropped)

theorem readDigits_append {digits tail rest : List Char} (whole : Json.Digits digits)
    (ends : Ends tail rest) : readDigits Char.isDigit (digits ++ tail) = some (digits, tail) := by
  obtain ⟨nonempty, digitsOnly⟩ := whole
  have accepted : ∀ c ∈ digits, (c.isDigit || decide (c = '_')) = true := by
    intro c member
    rw [digitsOnly c member, Bool.true_or]
  have noMark : ∀ c ∈ digits, c ≠ '_' := by
    rintro c member rfl
    cases digitsOnly _ member
  have stops : tail.takeWhile (fun c => c.isDigit || decide (c = '_')) = [] ∧
      tail.dropWhile (fun c => c.isDigit || decide (c = '_')) = tail := by
    cases ends <;> exact ⟨rfl, rfl⟩
  have grouped : isGrouped digits = true := by
    have first : digits.head? ≠ some '_' := fun same => noMark _ (List.mem_of_head? same) rfl
    have last : digits.getLast? ≠ some '_' := fun same => noMark _ (List.mem_of_getLast? same) rfl
    have pairs : ∀ pair ∈ digits.zip digits.tail, (pair != ('_', '_')) = true := by
      intro pair member
      rw [bne_iff_ne]
      rintro rfl
      exact noMark _ (List.of_mem_zip member).1 rfl
    simp [isGrouped, nonempty, first, last, List.all_eq_true.mpr pairs]
  have kept : digits.filter (· != '_') = digits := by
    rw [List.filter_eq_self]
    exact fun c member => bne_iff_ne.mpr (noMark c member)
  simp only [readDigits, List.takeWhile_append_of_pos accepted,
    List.dropWhile_append_of_pos accepted, stops, List.append_nil, grouped, kept, if_true]

private theorem readDecimal_digits (negative : Bool) (n : Nat) {tail rest : List Char}
    (ends : Ends tail rest) :
    readDecimal negative (Numeral.digitsOf n ++ tail) =
      (integer? (if negative then -(n : Int) else n)).map fun value => (value, tail) := by
  obtain ⟨digits, lead⟩ := Numeral.wholeDigits_digitsOf n
  have single : ¬ ((Numeral.digitsOf n ++ tail).head? = some '0' ∧
      (Numeral.digitsOf n).length ≠ 1) := by
    rintro ⟨zero, long⟩
    rw [List.head?_append_of_ne_nil _ digits.1] at zero
    rw [lead zero] at long
    exact long rfl
  have fraction : readFraction tail = some (none, tail) := by
    cases ends <;> rfl
  have exponent : readExponent tail = some (none, tail) := by
    cases ends <;> rfl
  simp only [readDecimal, readDigits_append digits ends, Option.bind_eq_bind, Option.bind_some]
  rw [if_neg (by simpa using single), fraction]
  simp only [Option.bind_some, exponent, Option.isNone_none, Bool.and_self, if_true,
    Numeral.valueOf_digitsOf, Option.pure_def]
  cases integer? (if negative then -(n : Int) else n) <;> rfl

theorem exists_digit_cons (n : Nat) :
    ∃ first others, Numeral.digitsOf n = first :: others ∧ first.isDigit = true := by
  obtain ⟨nonempty, digitsOnly⟩ := Numeral.digits_digitsOf n
  obtain ⟨first, others, split⟩ := List.exists_cons_of_ne_nil nonempty
  exact ⟨first, others, split, digitsOnly first (split ▸ List.mem_cons_self)⟩

/-- A number that starts with a digit is a decimal one, unless a letter for another base follows a
leading zero. -/
theorem readNumber_of_digit {first : Char} {rest : List Char} (digit : first.isDigit = true)
    (noBase : first = '0' → ∀ c ∈ rest.head?, c ∉ ['x', 'o', 'b']) :
    readNumber (first :: rest) = readDecimal false (first :: rest) := by
  have noMinus : first ≠ '-' := ne_of_holds digit (by decide)
  have noPlus : first ≠ '+' := ne_of_holds digit (by decide)
  have noI : first ≠ 'i' := ne_of_holds digit (by decide)
  have noN : first ≠ 'n' := ne_of_holds digit (by decide)
  unfold readNumber
  split
  · next same =>
      cases same
      exact absurd (noBase rfl 'x' rfl) (by decide)
  · next same =>
      cases same
      exact absurd (noBase rfl 'o' rfl) (by decide)
  · next same =>
      cases same
      exact absurd (noBase rfl 'b' rfl) (by decide)
  · simp [noMinus, noPlus, noI, noN]

private theorem readNumber_minus {first : Char} {rest : List Char} (digit : first.isDigit = true) :
    readNumber ('-' :: first :: rest) = readDecimal true (first :: rest) := by
  have noI : first ≠ 'i' := ne_of_holds digit (by decide)
  have noN : first ≠ 'n' := ne_of_holds digit (by decide)
  simp [readNumber, noI, noN]

private theorem readNumber_decimal (value : Int) {tail rest : List Char} (ends : Ends tail rest) :
    readNumber (decimal value ++ tail) = (integer? value).map fun value => (value, tail) := by
  obtain ⟨first, others, split, digit⟩ := exists_digit_cons value.natAbs
  unfold decimal
  by_cases negative : value < 0
  · have read := readDecimal_digits true value.natAbs ends
    have same : -(value.natAbs : Int) = value := by omega
    rw [if_pos rfl, same] at read
    rw [if_pos negative, List.cons_append, ← read, split, List.cons_append,
      readNumber_minus digit]
  · have read := readDecimal_digits false value.natAbs ends
    have same : (value.natAbs : Int) = value := by omega
    rw [if_neg Bool.false_ne_true, same] at read
    rw [if_neg negative, ← read, split, List.cons_append]
    apply readNumber_of_digit digit
    rintro rfl c next
    -- A leading zero is the only digit, so the end of the line follows.
    have alone := (Numeral.wholeDigits_digitsOf value.natAbs).2 (by rw [split]; rfl)
    rw [split] at alone
    cases alone
    cases ends with
    | last => cases next
    | feed =>
        cases next
        decide

/-- The first character of an integer is a digit or a minus sign. -/
theorem exists_decimal_cons (value : Int) :
    ∃ first others, decimal value = first :: others ∧ (first.isDigit = true ∨ first = '-') := by
  unfold decimal
  split
  · exact ⟨'-', _, rfl, .inr rfl⟩
  · obtain ⟨first, others, split, digit⟩ := exists_digit_cons value.natAbs
    exact ⟨first, others, split, .inl digit⟩

private theorem readScalar_decimal (value : Int) {tail rest : List Char} (ends : Ends tail rest) :
    readScalar (decimal value ++ tail) = (integer? value).map fun value => (value, tail) := by
  rw [← readNumber_decimal value ends]
  obtain ⟨first, others, split, lead⟩ := exists_decimal_cons value
  have date : startsDate (decimal value ++ tail) = false :=
    Bool.eq_false_iff.mpr (mt marked_of_startsDate (ends.not_marked value (by decide)))
  have time : startsTime (decimal value ++ tail) = false :=
    Bool.eq_false_iff.mpr (mt marked_of_startsTime (ends.not_marked value (by decide)))
  unfold readScalar
  split
  · next same =>
      rw [split] at same
      obtain ⟨rfl, _⟩ := List.cons.inj same
      exact absurd lead (by decide)
  · next same =>
      rw [split] at same
      obtain ⟨rfl, _⟩ := List.cons.inj same
      exact absurd lead (by decide)
  · rw [date, time]
    rfl

private theorem readValue_decimal (budget : Nat) (value : Int) {tail rest : List Char}
    (ends : Ends tail rest) :
    readValue (budget + 1) 0 (decimal value ++ tail) =
      (integer? value).map fun value => (.scalar value, tail) := by
  have read := readScalar_decimal value ends
  obtain ⟨first, others, split, lead⟩ := exists_decimal_cons value
  have plain : first ≠ '"' ∧ first ≠ '\x27' ∧ first ≠ '[' ∧ first ≠ '\x7b' := by
    rcases lead with digit | rfl
    · exact ⟨ne_of_holds digit (by decide), ne_of_holds digit (by decide),
        ne_of_holds digit (by decide), ne_of_holds digit (by decide)⟩
    · decide
  obtain ⟨noQuote, noApostrophe, noBracket, noBrace⟩ := plain
  rw [split, List.cons_append] at read ⊢
  simp only [readValue, noQuote, noApostrophe, noBracket, noBrace, decide_false, Bool.or_self,
    Bool.false_eq_true, if_false, read, Option.map_map]
  rfl

/-! Lines -/

/-- The path of the table that was opened last, and the tables so far. -/
structure Draft where
  place : List String := []
  root : Members := []

/-- What a line does. -/
def Line.apply (draft : Draft) : Line → Option Draft
  | .blank => some draft
  | .header key =>
      (draft.root.openTable [] key.name).map fun root => { place := [key.name], root }
  | .assignment key value => do
      let scalar ← integer? value
      let root ← draft.root.editAt false
        (fun _ members => members.assign [] key.name (.scalar scalar)) draft.place false
      return { draft with root }

private theorem readLines_header (budget : Nat) (draft : Draft) (key : BareKey)
    {tail rest : List Char} (ends : Ends tail rest) :
    readLines (budget + 1) draft.place draft.root ((Line.header key).text ++ tail) =
      (Line.apply draft (.header key)).bind fun draft =>
        readLines budget draft.place draft.root rest := by
  obtain ⟨first, others, split, bare⟩ := key.exists_cons
  have noBracket : first ≠ '[' := ne_of_holds bare (by decide)
  have skipped : skipBlanks ((Line.header key).text ++ tail) =
      '[' :: (key.chars ++ ']' :: tail) := by
    rw [Line.text, List.cons_append, skipBlanks_cons (by decide) (by decide), List.append_assoc,
      List.singleton_append]
  have path : readPath (key.chars ++ ']' :: tail) = some (([], key.name), ']' :: tail) :=
    readPath_bare key (by decide) (skipBlanks_cons (by decide) (by decide) tail) (by decide)
  have mark : readMark ']' (']' :: tail) = some tail := by rfl
  rw [readLines, skipped]
  split
  · next same => cases same
  · next same =>
      rw [split] at same
      cases same
      exact absurd rfl noBracket
  · next same =>
      cases same
      simp only [path, Option.bind_eq_bind, Option.bind_some, mark, ends.readLineEnd_eq,
        List.nil_append, Line.apply, Option.bind_map, Function.comp_def]
  · next notHeader => exact absurd rfl (notHeader _)

private theorem readLineEnd_bare (key : BareKey) (rest : List Char) :
    readLineEnd (key.chars ++ rest) = none := by
  obtain ⟨first, others, split, bare⟩ := key.exists_cons
  have noComment : first ≠ '#' := ne_of_holds bare (by decide)
  have noFeed : first ≠ '\n' := ne_of_holds bare (by decide)
  have noReturn : first ≠ '\r' := ne_of_holds bare (by decide)
  rw [readLineEnd, key.skipBlanks_append, split, List.cons_append]
  simp [skipComment, readNewline, noComment, noFeed, noReturn]

private theorem readAssignment_bare (draft : Draft) (key : BareKey) (value : Int)
    {tail rest : List Char} (ends : Ends tail rest) :
    readAssignment draft.place draft.root ((Line.assignment key value).text ++ tail) =
      (Line.apply draft (.assignment key value)).map fun draft => (draft.root, rest) := by
  have path : readPath ((Line.assignment key value).text ++ tail) =
      some (([], key.name), '=' :: ' ' :: (decimal value ++ tail)) := by
    rw [Line.text, List.append_assoc]
    exact readPath_bare key (by decide)
      ((skipBlanks_space _).trans (skipBlanks_cons (by decide) (by decide) _)) (by decide)
  have mark : readMark '=' ('=' :: ' ' :: (decimal value ++ tail)) =
      some (' ' :: (decimal value ++ tail)) := by rfl
  have skipped : skipBlanks (' ' :: (decimal value ++ tail)) = decimal value ++ tail := by
    obtain ⟨first, others, split, lead⟩ := exists_decimal_cons value
    have solid : first ≠ ' ' ∧ first ≠ '\t' := by
      rcases lead with digit | rfl
      · exact ⟨ne_of_holds digit (by decide), ne_of_holds digit (by decide)⟩
      · decide
    rw [skipBlanks_space, split, List.cons_append, skipBlanks_cons solid.1 solid.2]
  rw [readAssignment, path]
  simp only [Option.bind_eq_bind, Option.bind_some, mark, skipped,
    readValue_decimal _ value ends, Line.apply, Option.pure_def]
  cases integer? value with
  | none => rfl
  | some scalar =>
      simp only [Option.map_some, Option.bind_some, ends.readLineEnd_eq, Option.map_bind]
      rfl

private theorem place_of_assignment {draft after : Draft} {key : BareKey} {value : Int}
    (applied : Line.apply draft (.assignment key value) = some after) :
    after.place = draft.place := by
  simp only [Line.apply, Option.bind_eq_bind, Option.pure_def, Option.bind_eq_some_iff] at applied
  obtain ⟨scalar, _, root, _, same⟩ := applied
  cases same
  rfl

private theorem readLines_assignment (budget : Nat) (draft : Draft) (key : BareKey) (value : Int)
    {tail rest : List Char} (ends : Ends tail rest) :
    readLines (budget + 1) draft.place draft.root ((Line.assignment key value).text ++ tail) =
      (Line.apply draft (.assignment key value)).bind fun draft =>
        readLines budget draft.place draft.root rest := by
  obtain ⟨first, others, split, bare⟩ := key.exists_cons
  have noBracket : first ≠ '[' := ne_of_holds bare (by decide)
  have read := readAssignment_bare draft key value ends
  have noEnd : readLineEnd ((Line.assignment key value).text ++ tail) = none := by
    rw [Line.text, List.append_assoc, readLineEnd_bare]
  have skipped : skipBlanks ((Line.assignment key value).text ++ tail) =
      (Line.assignment key value).text ++ tail := by
    rw [Line.text, List.append_assoc, key.skipBlanks_append]
  have starts : ∃ more, (Line.assignment key value).text ++ tail = first :: more := by
    rw [Line.text, split]
    exact ⟨_, rfl⟩
  obtain ⟨more, starts⟩ := starts
  rw [readLines, skipped]
  split
  · next same => cases starts.symm.trans same
  · next same => exact absurd (List.cons.inj (starts.symm.trans same)).1 noBracket
  · next same => exact absurd (List.cons.inj (starts.symm.trans same)).1 noBracket
  · rw [noEnd, read]
    cases applied : Line.apply draft (.assignment key value) with
    | none => rfl
    | some after =>
        rw [Option.bind_some, place_of_assignment applied]
        rfl

theorem readLines_empty {budget : Nat} (enough : 0 < budget) (place : List String)
    (root : Members) : readLines budget place root [] = some root := by
  cases budget with
  | zero => cases enough
  | succ budget => rfl

/-- One line that is not blank: it is applied, and reading goes on behind it. -/
theorem readLines_line (budget : Nat) (draft : Draft) {line : Line} (nonempty : line.text ≠ [])
    {tail rest : List Char} (ends : Ends tail rest) :
    readLines (budget + 1) draft.place draft.root (line.text ++ tail) =
      (line.apply draft).bind fun draft => readLines budget draft.place draft.root rest := by
  cases line with
  | blank => exact absurd rfl nonempty
  | header key => exact readLines_header budget draft key ends
  | assignment key value => exact readLines_assignment budget draft key value ends

theorem blank_of_text_eq_nil {line : Line} (empty : line.text = []) : line = .blank := by
  cases line with
  | blank => rfl
  | header key => cases empty
  | assignment key value => exact absurd (List.append_eq_nil_iff.mp empty).1 key.nonempty

/-- A document of plain lines is read by applying its lines in order. -/
theorem readLines_linesText (lines : List Line) (draft : Draft) {budget : Nat}
    (enough : (linesText lines).length < budget) :
    readLines budget draft.place draft.root (linesText lines) =
      (lines.foldlM Line.apply draft).map Draft.root := by
  induction lines generalizing draft budget with
  | nil => exact readLines_empty (by omega) draft.place draft.root
  | cons line lines ih =>
      obtain ⟨budget, rfl⟩ : ∃ less, budget = less + 1 := ⟨budget - 1, by omega⟩
      rw [List.foldlM_cons, Option.bind_eq_bind, Option.map_bind]
      cases lines with
      | nil =>
          rw [linesText, List.map_singleton, List.intercalate_singleton] at enough ⊢
          by_cases empty : line.text = []
          · rw [empty, blank_of_text_eq_nil empty]
            rfl
          · have long := List.length_pos_iff.mpr empty
            have read := readLines_line budget draft empty .last
            rw [List.append_nil] at read
            rw [read]
            refine Option.bind_congr fun after _ => ?_
            exact readLines_empty (by omega) after.place after.root
      | cons next lines =>
          have split : linesText (line :: next :: lines) =
              line.text ++ '\n' :: linesText (next :: lines) := by
            rw [linesText, List.map_cons, List.map_cons, List.intercalate_cons_cons,
              List.append_assoc]
            rfl
          rw [split, List.length_append, List.length_cons] at enough
          rw [split]
          by_cases empty : line.text = []
          · rw [empty, blank_of_text_eq_nil empty]
            exact ih draft (by omega)
          · rw [readLines_line budget draft empty .feed]
            exact Option.bind_congr fun after _ => ih after (by omega)

private theorem head?_linesText (lines : List Line) : (linesText lines).head? ≠ some '\ufeff' := by
  cases lines with
  | nil => simp [linesText]
  | cons line lines =>
      cases line with
      | blank => cases lines <;> simp [linesText, Line.text]
      | header key => cases lines <;> simp [linesText, Line.text]
      | assignment key value =>
          obtain ⟨first, others, split, bare⟩ := key.exists_cons
          have noMark : first ≠ '\ufeff' := ne_of_holds bare (by decide)
          cases lines <;> simp [linesText, Line.text, split, noMark]

theorem read?_linesText (lines : List Line) :
    read? (linesText lines) = (lines.foldlM Line.apply {}).map Draft.root := by
  rw [read?, if_neg (head?_linesText lines)]
  exact readLines_linesText lines {} (Nat.lt_succ_self _)

end SnippetAudit.Toml
