import SnippetAudit.Proofs.Json.Reading

/-!
JSON texts inside an object text.

A text that is read as a value is read as the same value where it stands as a member of an object.
This holds of every text that the reader accepts, also of one with unpaired surrogates, which
spell no value. The reader is first described by what one call of it does.
-/

set_option autoImplicit false

namespace SnippetAudit.Json

/-! A text that is continued -/

private theorem skipBlanks_append_of_ne {text : List Char} (nonempty : skipBlanks text ≠ [])
    (more : List Char) : skipBlanks (text ++ more) = skipBlanks text ++ more := by
  unfold skipBlanks at *
  rw [List.dropWhile_append, if_neg (by simpa using nonempty)]

theorem skipBlanks_append_cons {text rest : List Char} {c : Char}
    (skipped : skipBlanks text = c :: rest) (more : List Char) :
    skipBlanks (text ++ more) = c :: (rest ++ more) := by
  rw [skipBlanks_append_of_ne (by simp [skipped]), skipped, List.cons_append]

theorem readQuoted_append {done : Option (List Char)} {high : Option Nat} {text rest : List Char}
    {read : Option (List Char)} (quoted : readQuoted done high text = some (read, rest))
    (more : List Char) : readQuoted done high (text ++ more) = some (read, rest ++ more) := by
  fun_induction readQuoted done high text with
  | case1 => cases quoted
  | case2 done high tail =>
      cases quoted
      simp [readQuoted]
  | case3 => cases quoted
  | case4 done high a b c d tail unit named isHigh ih =>
      simp [readQuoted, named, isHigh, ih quoted]
  | case5 done a b c d tail unit named notHigh isLow high ih =>
      simp [readQuoted, named, notHigh, isLow, ih quoted]
  | case6 done a b c d tail unit named notHigh isLow ih =>
      simp [readQuoted, named, notHigh, isLow, ih quoted]
  | case7 done high a b c d tail unit named notHigh notLow ih =>
      simp [readQuoted, named, notHigh, notLow, ih quoted]
  | case8 => cases quoted
  | case9 done high letter tail notUnit c escape ih =>
      have noUnit : letter ≠ 'u' := by
        intro same
        subst same
        cases escape
      simp [readQuoted, noUnit, escape, ih quoted]
  | case10 => cases quoted
  | case11 done high c tail noQuote notUnit notEscape visible ih =>
      have noEscape : c ≠ '\\' := by
        intro same
        cases tail with
        | nil => cases quoted
        | cons letter tail => exact notEscape letter tail same rfl
      simp [readQuoted, noEscape, visible, ih quoted]

/-! Numbers -/

private theorem splitDigits_more {text digits rest more : List Char}
    (split : splitDigits text = (digits, rest))
    (ends : rest = [] → ∀ c ∈ more.head?, c.isDigit = false) :
    splitDigits (text ++ more) = (digits, rest ++ more) := by
  cases split
  have whole : text = text.takeWhile Char.isDigit ++ text.dropWhile Char.isDigit :=
    List.takeWhile_append_dropWhile.symm
  have all : ∀ c ∈ text.takeWhile Char.isDigit, c.isDigit = true := by
    intro c member
    exact List.mem_takeWhile_imp member
  conv => lhs; rw [whole, List.append_assoc]
  apply splitDigits_append all
  intro c first
  cases left : text.dropWhile Char.isDigit with
  | nil =>
      rw [left, List.nil_append] at first
      exact ends left c first
  | cons other rest =>
      rw [left, List.cons_append, List.head?_cons, Option.mem_def, Option.some.injEq] at first
      have notDigit := List.head?_dropWhile_not Char.isDigit text
      rw [left, List.head?_cons] at notDigit
      simpa [first] using notDigit

private theorem readFraction_of_ne {text : List Char} (noPoint : text.head? ≠ some '.') :
    readFraction text = some ([], text) := by
  cases text with
  | nil => rfl
  | cons c text =>
      have other : c ≠ '.' := by simpa using noPoint
      simp [readFraction, other]

private theorem readFraction_more {text fraction rest more : List Char}
    (read : readFraction text = some (fraction, rest)) (ends : rest = [] → EndsNumber more) :
    readFraction (text ++ more) = some (fraction, rest ++ more) := by
  unfold readFraction at read
  split at read
  · next tail =>
    cases split : splitDigits tail with
    | mk digits left =>
        simp only [split] at read
        split at read
        · cases read
        · next some =>
          cases read
          have more := splitDigits_more split fun atEnd c first => (ends atEnd c first).1
          simp [readFraction, more, some]
  · next noPoint =>
    cases read
    apply readFraction_of_ne
    cases text with
    | nil =>
        intro point
        exact (ends rfl '.' point).2.1 rfl
    | cons c text =>
        intro point
        cases point
        exact noPoint text rfl

private theorem splitSign_append {text : List Char} (nonempty : text ≠ []) (more : List Char) :
    splitSign (text ++ more) = ((splitSign text).1, (splitSign text).2 ++ more) := by
  cases text with
  | nil => exact absurd rfl nonempty
  | cons c text =>
      by_cases minus : c = '-'
      · subst minus
        rfl
      · by_cases plus : c = '+'
        · subst plus
          rfl
        · simp [splitSign, minus, plus]

private theorem readExponent_more {text rest more : List Char}
    {exponent : Option (Bool × List Char)}
    (read : readExponent text = some (exponent, rest)) (ends : rest = [] → EndsNumber more) :
    readExponent (text ++ more) = some (exponent, rest ++ more) := by
  cases text with
  | nil =>
      cases read
      cases more with
      | nil => rfl
      | cons c more =>
          obtain ⟨_, _, notSmall, notLarge⟩ := ends rfl c rfl
          simp [readExponent, notSmall, notLarge]
  | cons c text =>
      simp only [readExponent] at read
      split at read
      · next mark =>
        simp only [Bool.or_eq_true, decide_eq_true_eq] at mark
        cases signed : splitSign text with
        | mk negative tail =>
            cases split : splitDigits tail with
            | mk digits left =>
                simp only [signed, split] at read
                split at read
                · cases read
                · next some =>
                  cases read
                  have digitsMore :=
                    splitDigits_more split fun atEnd c first => (ends atEnd c first).1
                  have nonempty : text ≠ [] := by
                    intro atEnd
                    subst atEnd
                    cases signed
                    cases split
                    exact some rfl
                  rw [List.cons_append, readExponent, if_pos (by simpa using mark),
                    splitSign_append nonempty, signed]
                  simp [digitsMore, some]
      · next noMark =>
        cases read
        simp [readExponent, noMark]

/-- What is left of a number behind its sign. -/
def unsigned (text : List Char) : List Char :=
  if text.head? = some '-' then text.tail else text

/-- A number is read in three steps, each from what the one before leaves. -/
theorem readNumeral_eq_some_iff {text rest : List Char} {numeral : Numeral} :
    readNumeral text = some (numeral, rest) ↔
      numeral.negative = decide (text.head? = some '-') ∧
      ¬ (numeral.whole.isEmpty || (numeral.whole.head? = some '0' && numeral.whole.length ≠ 1)) ∧
      ∃ afterWhole afterFraction, splitDigits (unsigned text) = (numeral.whole, afterWhole) ∧
        readFraction afterWhole = some (numeral.fraction, afterFraction) ∧
        readExponent afterFraction = some (numeral.exponent, rest) := by
  have unfolded : readNumeral text =
      if (splitDigits (unsigned text)).1.isEmpty ||
          ((splitDigits (unsigned text)).1.head? = some '0' &&
            (splitDigits (unsigned text)).1.length ≠ 1) then none
      else (readFraction (splitDigits (unsigned text)).2).bind fun fraction =>
        (readExponent fraction.2).bind fun exponent =>
          some ({ negative := decide (text.head? = some '-'),
                  whole := (splitDigits (unsigned text)).1,
                  fraction := fraction.1, exponent := exponent.1 }, exponent.2) := by
    simp only [readNumeral, unsigned]
    rfl
  rw [unfolded]
  constructor
  · intro read
    split at read
    · cases read
    · next good =>
      obtain ⟨⟨fraction, afterFraction⟩, fractionRead, read⟩ := Option.bind_eq_some_iff.mp read
      obtain ⟨⟨exponent, left⟩, exponentRead, same⟩ := Option.bind_eq_some_iff.mp read
      cases same
      exact ⟨rfl, good, _, _, rfl, fractionRead, exponentRead⟩
  · intro steps
    obtain ⟨sign, good, afterWhole, afterFraction, split, fraction, exponent⟩ := steps
    simp only [split, if_neg good, fraction, Option.bind_some, exponent, ← sign]

private theorem readNumeral_more {text rest more : List Char} {numeral : Numeral}
    (read : readNumeral text = some (numeral, rest)) (ends : rest = [] → EndsNumber more) :
    readNumeral (text ++ more) = some (numeral, rest ++ more) := by
  obtain ⟨sign, whole, afterWhole, afterFraction, split, fraction, exponent⟩ :=
    readNumeral_eq_some_iff.mp read
  have nonempty : text ≠ [] := by
    intro atEnd
    have noDigits : numeral.whole = [] := by
      subst atEnd
      exact (congrArg Prod.fst split).symm
    exact whole (by simp [noDigits])
  have head : (text ++ more).head? = text.head? := List.head?_append_of_ne_nil _ nonempty
  have behind : unsigned (text ++ more) = unsigned text ++ more := by
    rw [unsigned, unsigned, head]
    split
    · rw [List.tail_append_of_ne_nil nonempty]
    · rfl
  -- A step that leaves nothing gives the next one nothing to take.
  have noExponent : afterFraction = [] → rest = [] := by
    intro atEnd
    subst atEnd
    exact (Prod.ext_iff.mp (Option.some.inj exponent)).2.symm
  have noFraction : afterWhole = [] → rest = [] := by
    intro atEnd
    subst atEnd
    exact noExponent (Prod.ext_iff.mp (Option.some.inj fraction)).2.symm
  refine readNumeral_eq_some_iff.mpr ⟨by rw [head, sign], whole, afterWhole ++ more,
    afterFraction ++ more, ?_, ?_, readExponent_more exponent ends⟩
  · rw [behind]
    exact splitDigits_more split fun atEnd c first => (ends (noFraction atEnd) c first).1
  · exact readFraction_more fraction fun atEnd => ends (noExponent atEnd)

private theorem readNumeral_starts {text rest : List Char} {numeral : Numeral}
    (read : readNumeral text = some (numeral, rest)) :
    ∃ c tail, text = c :: tail ∧ StartsNumber c := by
  obtain ⟨_, whole, afterWhole, _, split, _⟩ := readNumeral_eq_some_iff.mp read
  cases text with
  | nil =>
      have noDigits : numeral.whole = [] := (congrArg Prod.fst split).symm
      exact absurd (by simp [noDigits]) whole
  | cons c tail =>
      refine ⟨c, tail, rfl, ?_⟩
      by_cases minus : c = '-'
      · exact .inl minus
      · have digits : (c :: tail).takeWhile Char.isDigit = numeral.whole := by
          have split := congrArg Prod.fst split
          rwa [unsigned, if_neg (by simpa using minus)] at split
        cases digit : c.isDigit with
        | true => exact .inr digit
        | false =>
            rw [List.takeWhile_cons_of_neg (by simp [digit])] at digits
            exact absurd (by simp [← digits]) whole

/-! Values -/

/-- What one call of the reader takes as a value, and what it leaves. -/
inductive ReadsValue (budget : Nat) (text : List Char) : Json → List Char → Prop where
  | null {rest : List Char} :
      skipBlanks text = 'n' :: 'u' :: 'l' :: 'l' :: rest → ReadsValue budget text .null rest
  | boolTrue {rest : List Char} :
      skipBlanks text = 't' :: 'r' :: 'u' :: 'e' :: rest →
      ReadsValue budget text (.bool true) rest
  | boolFalse {rest : List Char} :
      skipBlanks text = 'f' :: 'a' :: 'l' :: 's' :: 'e' :: rest →
      ReadsValue budget text (.bool false) rest
  | quoted {tail rest : List Char} {done : Option (List Char)} :
      skipBlanks text = '"' :: tail → readQuoted (some []) none tail = some (done, rest) →
      ReadsValue budget text (ofQuoted done) rest
  | emptyArray {tail rest : List Char} :
      skipBlanks text = '[' :: tail → skipBlanks tail = ']' :: rest →
      ReadsValue budget text (.array []) rest
  | array {tail inner rest : List Char} {c : Char} {items : List Json} :
      skipBlanks text = '[' :: tail → skipBlanks tail = c :: inner → c ≠ ']' →
      readItems budget tail = some (items, rest) → ReadsValue budget text (.array items) rest
  | emptyObject {tail rest : List Char} :
      skipBlanks text = '\x7b' :: tail → skipBlanks tail = '\x7d' :: rest →
      ReadsValue budget text (.object []) rest
  | object {tail inner rest : List Char} {members : Option (List (String × Json))} :
      skipBlanks text = '\x7b' :: tail → skipBlanks tail = '"' :: inner →
      readMembers budget tail = some (members, rest) →
      ReadsValue budget text (ofMembers members) rest
  | number {tail rest : List Char} {c : Char} {numeral : Numeral} :
      skipBlanks text = c :: tail → StartsNumber c →
      readNumeral (c :: tail) = some (numeral, rest) →
      ReadsValue budget text (.number numeral) rest

private theorem readItems_starts {budget : Nat} {text rest : List Char} {items : List Json}
    (read : readItems budget text = some (items, rest)) :
    ∃ c tail, skipBlanks text = c :: tail := by
  cases skipped : skipBlanks text with
  | cons c tail => exact ⟨c, tail, rfl⟩
  | nil =>
      rw [← readItems_skipBlanks, skipped] at read
      cases budget with
      | zero => cases read
      | succ budget => cases budget <;> cases read

private theorem readMembers_starts {budget : Nat} {text rest : List Char}
    {members : Option (List (String × Json))}
    (read : readMembers budget text = some (members, rest)) :
    ∃ tail, skipBlanks text = '"' :: tail := by
  cases budget with
  | zero => cases read
  | succ budget =>
      rw [readMembers] at read
      split at read
      · next tail skipped => exact ⟨tail, skipped⟩
      · cases read

private theorem readsValue_of_readValue {budget : Nat} {text rest : List Char} {value : Json}
    (read : readValue (budget + 1) text = some (value, rest)) :
    ReadsValue budget text value rest := by
  rw [readValue] at read
  split at read
  · next skipped =>
    cases read
    exact .null skipped
  · next skipped =>
    cases read
    exact .boolTrue skipped
  · next skipped =>
    cases read
    exact .boolFalse skipped
  · next skipped =>
    obtain ⟨⟨done, left⟩, quoted, same⟩ := Option.map_eq_some_iff.mp read
    cases same
    exact .quoted skipped quoted
  · next tail skipped =>
    split at read
    · next closed =>
      cases read
      exact .emptyArray skipped closed
    · next other =>
      obtain ⟨⟨items, left⟩, itemsRead, same⟩ := Option.map_eq_some_iff.mp read
      cases same
      rw [readItems_skipBlanks] at itemsRead
      obtain ⟨c, inner, innerSkipped⟩ := readItems_starts itemsRead
      refine .array skipped innerSkipped ?_ itemsRead
      intro closed
      exact other inner (innerSkipped.trans (congrArg (· :: inner) closed))
  · next tail skipped =>
    split at read
    · next closed =>
      cases read
      exact .emptyObject skipped closed
    · next other =>
      obtain ⟨⟨members, left⟩, membersRead, same⟩ := Option.map_eq_some_iff.mp read
      cases same
      rw [readMembers_skipBlanks] at membersRead
      obtain ⟨inner, innerSkipped⟩ := readMembers_starts membersRead
      exact .object skipped innerSkipped membersRead
  · obtain ⟨⟨numeral, left⟩, numeralRead, same⟩ := Option.map_eq_some_iff.mp read
    cases same
    obtain ⟨c, tail, split, starts⟩ := readNumeral_starts numeralRead
    rw [split] at numeralRead
    exact .number split starts numeralRead

theorem ReadsValue.readValue_eq {budget : Nat} {text rest : List Char} {value : Json}
    (reads : ReadsValue budget text value rest) :
    readValue (budget + 1) text = some (value, rest) := by
  cases reads with
  | null skipped => simp only [readValue, skipped]
  | boolTrue skipped => simp only [readValue, skipped]
  | boolFalse skipped => simp only [readValue, skipped]
  | quoted skipped quoted => simp only [readValue, skipped, quoted, Option.map_some]
  | emptyArray skipped closed => simp only [readValue, skipped, closed]
  | array skipped inner notClosed items =>
      rw [← readValue_skipBlanks, skipped, readValue_array inner notClosed, items, Option.map_some]
  | emptyObject skipped closed => simp only [readValue, skipped, closed]
  | object skipped inner members =>
      rw [← readValue_skipBlanks, skipped, readValue_object inner, members, Option.map_some]
  | number skipped starts numeral =>
      rw [readValue_number skipped starts, numeral, Option.map_some]

theorem readsValue_iff {budget : Nat} {text rest : List Char} {value : Json} :
    readValue (budget + 1) text = some (value, rest) ↔ ReadsValue budget text value rest :=
  ⟨readsValue_of_readValue, ReadsValue.readValue_eq⟩

inductive ReadsItems (budget : Nat) (text : List Char) : List Json → List Char → Prop where
  | last {item : Json} {left rest : List Char} :
      readValue budget text = some (item, left) → skipBlanks left = ']' :: rest →
      ReadsItems budget text [item] rest
  | more {item : Json} {items : List Json} {left tail rest : List Char} :
      readValue budget text = some (item, left) → skipBlanks left = ',' :: tail →
      readItems budget tail = some (items, rest) → ReadsItems budget text (item :: items) rest

theorem readsItems_iff {budget : Nat} {text rest : List Char} {items : List Json} :
    readItems (budget + 1) text = some (items, rest) ↔ ReadsItems budget text items rest := by
  constructor
  · intro read
    simp only [readItems, Option.bind_eq_bind] at read
    obtain ⟨⟨item, left⟩, itemRead, read⟩ := Option.bind_eq_some_iff.mp read
    dsimp only at read
    split at read
    · next tail comma =>
      obtain ⟨⟨others, left⟩, itemsRead, same⟩ := Option.bind_eq_some_iff.mp read
      cases same
      exact .more itemRead comma itemsRead
    · next closed =>
      cases read
      exact .last itemRead closed
    · cases read
  · intro reads
    cases reads with
    | last item closed => simp [readItems, item, closed]
    | more item comma items => simp [readItems, item, comma, items]

inductive ReadsMembers (budget : Nat) (text : List Char) :
    Option (List (String × Json)) → List Char → Prop where
  | last {key : Option String} {value : Json} {tail afterKey left rest : List Char} :
      skipBlanks text = '"' :: tail → readKey tail = some (key, afterKey) →
      readValue budget afterKey = some (value, left) → skipBlanks left = '\x7d' :: rest →
      ReadsMembers budget text (withMember key value (some [])) rest
  | more {key : Option String} {value : Json} {members : Option (List (String × Json))}
      {tail afterKey left others rest : List Char} :
      skipBlanks text = '"' :: tail → readKey tail = some (key, afterKey) →
      readValue budget afterKey = some (value, left) → skipBlanks left = ',' :: others →
      readMembers budget others = some (members, rest) →
      ReadsMembers budget text (withMember key value members) rest

theorem readsMembers_iff {budget : Nat} {text rest : List Char}
    {members : Option (List (String × Json))} :
    readMembers (budget + 1) text = some (members, rest) ↔
      ReadsMembers budget text members rest := by
  constructor
  · intro read
    rw [readMembers] at read
    split at read
    · next tail skipped =>
      simp only [Option.bind_eq_bind] at read
      obtain ⟨⟨key, afterKey⟩, keyRead, read⟩ := Option.bind_eq_some_iff.mp read
      obtain ⟨⟨value, left⟩, valueRead, read⟩ := Option.bind_eq_some_iff.mp read
      dsimp only at read
      split at read
      · next others comma =>
        obtain ⟨⟨members, left⟩, membersRead, same⟩ := Option.bind_eq_some_iff.mp read
        cases same
        exact .more skipped keyRead valueRead comma membersRead
      · next closed =>
        cases read
        exact .last skipped keyRead valueRead closed
      · cases read
    · cases read
  · intro reads
    cases reads with
    | last skipped key value closed => simp [readMembers, skipped, key, value, closed]
    | more skipped key value comma members =>
        simp [readMembers, skipped, key, value, comma, members]

private theorem readKey_more {text rest : List Char} {key : Option String}
    (read : readKey text = some (key, rest)) (more : List Char) :
    readKey (text ++ more) = some (key, rest ++ more) := by
  unfold readKey at read
  split at read
  · next chars left quoted =>
    split at read
    · next tail colon =>
      cases read
      simp only [readKey, readQuoted_append quoted more, skipBlanks_append_cons colon more]
    · cases read
  · cases read

private theorem ne_nil_of_skipBlanks {text rest : List Char} {c : Char}
    (skipped : skipBlanks text = c :: rest) : text ≠ [] := by
  intro atEnd
  subst atEnd
  cases skipped

mutual

/-- A value is read alike with a greater budget and in front of a text that does not continue
it. -/
theorem readValue_more {budget larger : Nat} {text rest more : List Char} {value : Json}
    (read : readValue budget text = some (value, rest)) (enough : budget ≤ larger)
    (ends : rest = [] → EndsNumber more) :
    readValue larger (text ++ more) = some (value, rest ++ more) := by
  cases budget with
  | zero => cases read
  | succ budget =>
      obtain ⟨larger, rfl⟩ := Nat.exists_eq_add_of_lt enough
      apply readsValue_iff.mpr
      cases readsValue_iff.mp read with
      | null skipped => exact .null (skipBlanks_append_cons skipped more)
      | boolTrue skipped => exact .boolTrue (skipBlanks_append_cons skipped more)
      | boolFalse skipped => exact .boolFalse (skipBlanks_append_cons skipped more)
      | quoted skipped quoted =>
          exact .quoted (skipBlanks_append_cons skipped more) (readQuoted_append quoted more)
      | emptyArray skipped closed =>
          exact .emptyArray (skipBlanks_append_cons skipped more)
            (skipBlanks_append_cons closed more)
      | array skipped inner notClosed items =>
          exact .array (skipBlanks_append_cons skipped more) (skipBlanks_append_cons inner more)
            notClosed (readItems_more items (by omega) more)
      | emptyObject skipped closed =>
          exact .emptyObject (skipBlanks_append_cons skipped more)
            (skipBlanks_append_cons closed more)
      | object skipped inner members =>
          exact .object (skipBlanks_append_cons skipped more) (skipBlanks_append_cons inner more)
            (readMembers_more members (by omega) more)
      | number skipped starts numeral =>
          exact .number (skipBlanks_append_cons skipped more) starts (readNumeral_more numeral ends)
termination_by budget

private theorem readItems_more {budget larger : Nat} {text rest : List Char} {items : List Json}
    (read : readItems budget text = some (items, rest)) (enough : budget ≤ larger)
    (more : List Char) : readItems larger (text ++ more) = some (items, rest ++ more) := by
  cases budget with
  | zero => cases read
  | succ budget =>
      obtain ⟨larger, rfl⟩ := Nat.exists_eq_add_of_lt enough
      apply readsItems_iff.mpr
      cases readsItems_iff.mp read with
      | last item closed =>
          exact .last
            (readValue_more item (by omega) fun atEnd => absurd atEnd (ne_nil_of_skipBlanks closed))
            (skipBlanks_append_cons closed more)
      | more item comma items =>
          exact .more
            (readValue_more item (by omega) fun atEnd => absurd atEnd (ne_nil_of_skipBlanks comma))
            (skipBlanks_append_cons comma more) (readItems_more items (by omega) more)
termination_by budget

private theorem readMembers_more {budget larger : Nat} {text rest : List Char}
    {members : Option (List (String × Json))}
    (read : readMembers budget text = some (members, rest)) (enough : budget ≤ larger)
    (more : List Char) :
    readMembers larger (text ++ more) = some (members, rest ++ more) := by
  cases budget with
  | zero => cases read
  | succ budget =>
      obtain ⟨larger, rfl⟩ := Nat.exists_eq_add_of_lt enough
      apply readsMembers_iff.mpr
      cases readsMembers_iff.mp read with
      | last skipped key value closed =>
          exact .last (skipBlanks_append_cons skipped more) (readKey_more key more)
            (readValue_more value (by omega) fun atEnd =>
              absurd atEnd (ne_nil_of_skipBlanks closed))
            (skipBlanks_append_cons closed more)
      | more skipped key value comma members =>
          exact .more (skipBlanks_append_cons skipped more) (readKey_more key more)
            (readValue_more value (by omega) fun atEnd => absurd atEnd (ne_nil_of_skipBlanks comma))
            (skipBlanks_append_cons comma more) (readMembers_more members (by omega) more)
termination_by budget

end

/-! Whole texts -/

theorem read?_eq_some_iff {text : List Char} {value : Json} :
    read? text = some value ↔
      ∃ blanks, readValue (2 * text.length + 2) text = some (value, blanks) ∧
        skipBlanks blanks = [] := by
  unfold read?
  cases readValue (2 * text.length + 2) text with
  | none => simp
  | some result =>
      obtain ⟨read, blanks⟩ := result
      simp only [List.isEmpty_iff, Option.ite_none_right_eq_some, Option.some.injEq, Prod.mk.injEq]
      constructor
      · intro accepted
        exact ⟨blanks, ⟨accepted.2, rfl⟩, accepted.1⟩
      · intro accepted
        obtain ⟨_, ⟨same, rfl⟩, blank⟩ := accepted
        exact ⟨blank, same⟩

theorem skipBlanks_append_cons_of_nil {blanks : List Char} (blank : skipBlanks blanks = [])
    {c : Char} (solid : isBlank c = false) (rest : List Char) :
    skipBlanks (blanks ++ c :: rest) = c :: rest := by
  have all : Blanks blanks := fun b member => List.dropWhile_eq_nil_iff.mp blank b member
  exact skipBlanks_upTo all solid rest

/-- A text that is read as a value is read alike in front of a character that ends it. -/
theorem readValue_of_read? {text : List Char} {value : Json} (read : read? text = some value)
    (budget : Nat) (enough : 2 * text.length + 2 ≤ budget) (c : Char) (rest : List Char)
    (solid : isBlank c = false) (ends : EndsNumber (c :: rest)) :
    ∃ left, readValue budget (text ++ c :: rest) = some (value, left) ∧
      skipBlanks left = c :: rest := by
  obtain ⟨blanks, valueRead, blank⟩ := read?_eq_some_iff.mp read
  exact ⟨blanks ++ c :: rest, readValue_more valueRead enough fun _ => ends,
    skipBlanks_append_cons_of_nil blank solid rest⟩

/-- A text that is read as a string is read as a key in front of a colon. -/
theorem readKey_of_read? {text : List Char} {key : String}
    (read : read? text = some (.string key)) :
    ∃ tail, skipBlanks text = '"' :: tail ∧
      ∀ rest, readKey (tail ++ ':' :: rest) = some (some key, rest) := by
  obtain ⟨blanks, valueRead, blank⟩ := read?_eq_some_iff.mp read
  generalize same : Json.string key = value at valueRead
  cases readsValue_iff.mp valueRead with
  | @quoted tail _ done skipped quoted =>
      refine ⟨tail, skipped, fun rest => ?_⟩
      cases done with
      | none => cases same
      | some chars =>
          cases same
          simp only [readKey, readQuoted_append quoted,
            skipBlanks_append_cons_of_nil blank (by decide : isBlank ':' = false),
            Option.map_some]
  | @object _ _ _ members => cases members <;> cases same
  | _ => cases same

theorem skipBlanks_of_read?_array {text : List Char} {items : List Json}
    (read : read? text = some (.array items)) : ∃ tail, skipBlanks text = '[' :: tail := by
  obtain ⟨blanks, valueRead, _⟩ := read?_eq_some_iff.mp read
  generalize same : Json.array items = value at valueRead
  cases readsValue_iff.mp valueRead with
  | emptyArray skipped _ => exact ⟨_, skipped⟩
  | array skipped _ _ _ => exact ⟨_, skipped⟩
  | @quoted _ _ done => cases done <;> cases same
  | @object _ _ _ members => cases members <;> cases same
  | _ => cases same

/-! Objects -/

/-- A member of an object with the texts that are read as its key and its value. -/
structure SpelledMember where
  keyText : List Char
  valueText : List Char
  key : String
  value : Json
  keyRead : read? keyText = some (.string key)
  valueRead : read? valueText = some value

namespace SpelledMember

def texts (spelled : SpelledMember) : List Char × List Char :=
  (spelled.keyText, spelled.valueText)

def member (spelled : SpelledMember) : String × Json :=
  (spelled.key, spelled.value)

end SpelledMember

/-- Keys and values with the colons and commas between them. -/
def membersText : List (List Char × List Char) → List Char
  | [] => []
  | [(key, value)] => key ++ ':' :: value
  | (key, value) :: member :: members =>
      key ++ ':' :: (value ++ ',' :: membersText (member :: members))

private theorem readMembers_membersText (spelled : SpelledMember) (others : List SpelledMember)
    (budget : Nat)
    (enough : 2 * (membersText ((spelled :: others).map SpelledMember.texts)).length < budget)
    (rest : List Char) :
    readMembers budget
        (membersText ((spelled :: others).map SpelledMember.texts) ++ '\x7d' :: rest) =
      some (some ((spelled :: others).map SpelledMember.member), rest) := by
  induction others generalizing spelled budget with
  | nil =>
      cases budget with
      | zero => cases enough
      | succ budget =>
          simp only [List.map_cons, List.map_nil, membersText, SpelledMember.texts,
            List.length_append, List.length_cons] at enough ⊢
          obtain ⟨tail, quote, keyRead⟩ := readKey_of_read? spelled.keyRead
          obtain ⟨left, valueRead, closed⟩ := readValue_of_read? spelled.valueRead budget
            (by omega) '\x7d' rest (by decide) (by simp [EndsNumber])
          rw [List.append_assoc, List.cons_append]
          exact readsMembers_iff.mpr
            (.last (skipBlanks_append_cons quote _) (keyRead _) valueRead closed)
  | cons next others ih =>
      cases budget with
      | zero => cases enough
      | succ budget =>
          rw [List.map_cons, List.map_cons, SpelledMember.texts, membersText] at enough ⊢
          rw [← List.map_cons] at enough ⊢
          simp only [List.length_append, List.length_cons] at enough
          obtain ⟨tail, quote, keyRead⟩ := readKey_of_read? spelled.keyRead
          obtain ⟨left, valueRead, comma⟩ := readValue_of_read? spelled.valueRead budget
            (by omega) ','
            (membersText ((next :: others).map SpelledMember.texts) ++ '\x7d' :: rest)
            (by decide) (by simp [EndsNumber])
          rw [List.append_assoc, List.cons_append, List.append_assoc, List.cons_append]
          exact readsMembers_iff.mpr
            (.more (skipBlanks_append_cons quote _) (keyRead _) valueRead comma
              (ih next budget (by omega)))

private theorem skipBlanks_membersText (spelled : SpelledMember) (others : List SpelledMember)
    (rest : List Char) :
    ∃ tail,
      skipBlanks (membersText ((spelled :: others).map SpelledMember.texts) ++ rest) =
        '"' :: tail := by
  obtain ⟨tail, quote, _⟩ := readKey_of_read? spelled.keyRead
  cases others with
  | nil =>
      rw [List.map_cons, SpelledMember.texts, List.map_nil, membersText, List.append_assoc]
      exact ⟨_, skipBlanks_append_cons quote _⟩
  | cons next others =>
      rw [List.map_cons, List.map_cons, SpelledMember.texts, membersText, List.append_assoc]
      exact ⟨_, skipBlanks_append_cons quote _⟩

/-- An object with blanks around it is read as its members. -/
theorem read?_object {lead trail : List Char} (leadBlank : Blanks lead) (trailBlank : Blanks trail)
    (spelled : SpelledMember) (others : List SpelledMember) :
    read? (lead ++ '\x7b' ::
        (membersText ((spelled :: others).map SpelledMember.texts) ++ '\x7d' :: trail)) =
      some (.object ((spelled :: others).map SpelledMember.member)) := by
  obtain ⟨tail, quote⟩ := skipBlanks_membersText spelled others ('\x7d' :: trail)
  have members := readMembers_membersText spelled others
    (2 * (lead ++ '\x7b' :: (membersText ((spelled :: others).map SpelledMember.texts) ++
      '\x7d' :: trail)).length + 1)
    (by simp only [List.length_append, List.length_cons]; omega) trail
  exact read?_eq_some_iff.mpr ⟨trail,
    readsValue_iff.mpr (.object (skipBlanks_upTo leadBlank (by decide) _) quote members),
    List.dropWhile_eq_nil_iff.mpr trailBlank⟩

/-- The text of an object with the value of one of its members left open. -/
structure OpenObject (key : String) where
  lead : List Char
  before : List SpelledMember
  keyText : List Char
  after : List SpelledMember
  trail : List Char
  leadBlank : Blanks lead
  keyRead : read? keyText = some (.string key)
  trailBlank : Blanks trail

namespace OpenObject

variable {key : String}

def fill (object : OpenObject key) (text : List Char) : List Char :=
  object.lead ++ '\x7b' ::
    (membersText
      (object.before.map SpelledMember.texts ++
        (object.keyText, text) :: object.after.map SpelledMember.texts) ++
      '\x7d' :: object.trail)

def members (object : OpenObject key) (value : Json) : List (String × Json) :=
  object.before.map SpelledMember.member ++
    (key, value) :: object.after.map SpelledMember.member

/-- Whatever is read from a text by itself is read from it as the value of the open member. -/
theorem read?_fill (object : OpenObject key) {text : List Char} {value : Json}
    (read : read? text = some value) :
    read? (object.fill text) = some (.object (object.members value)) := by
  let filled : SpelledMember := ⟨object.keyText, text, key, value, object.keyRead, read⟩
  have whole : ∀ spelled others, object.before ++ filled :: object.after = spelled :: others →
      read? (object.fill text) = some (.object (object.members value)) := by
    intro spelled others split
    have texts := congrArg (List.map SpelledMember.texts) split
    have members := congrArg (List.map SpelledMember.member) split
    rw [List.map_append, List.map_cons] at texts members
    have readAll := read?_object object.leadBlank object.trailBlank spelled others
    rw [← texts, ← members] at readAll
    exact readAll
  cases split : object.before with
  | nil => exact whole filled object.after (by rw [split, List.nil_append])
  | cons spelled others =>
      exact whole spelled (others ++ filled :: object.after) (by rw [split, List.cons_append])

end OpenObject

end SnippetAudit.Json
