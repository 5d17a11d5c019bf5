import SnippetAudit.Complexity
import SnippetAudit.Proofs.Catalog.Builtin
import SnippetAudit.Proofs.Complexity.Matches
import SnippetAudit.Proofs.Decimal.Halves

/-!
The complexity score, said in plain terms.

With the built-in catalog the patterns of the score count tokens, and the score adds up their
weights. No bit is lost in the sum, unless the text is far longer than any memory.
-/

set_option autoImplicit false

namespace SnippetAudit.Complexity

open Decimal (IsHalves exactValue?)

/-! Tokens of the built-in catalog -/

/-- What the patterns of the built-in catalog look for, in their order, with the weights in
halves. -/
def tokens : List (Token × Nat) :=
  [(.keyword "if", 2), (.elseIf, 2), (.keyword "else", 0), (.keyword "while", 2),
   (.keyword "for", 2), (.keyword "foreach", 2), (.keyword "switch", 2), (.keyword "case", 2),
   (.keyword "catch", 2), (.ternary, 2), (.pair '|', 1), (.pair '&', 1)]

/-- The tokens with the rows of the table. -/
abbrev Entry := (Token × Nat) × String × Float

def entries : List Entry :=
  tokens.zip Catalog.Builtin.complexity

def signal (entry : Entry) : Signal where
  text := entry.2.1
  pattern := entry.1.1.pattern
  weight := entry.2.2

private theorem toOption_ofText_entries : ∀ entry ∈ entries,
    (Pattern.ofText entry.2.1.toList).toOption = some entry.1.1.pattern := by
  decide +kernel

theorem isProper_entries : ∀ entry ∈ entries, entry.1.1.IsProper := by
  decide +kernel

private theorem readSignal_entries {entry : Entry} (member : entry ∈ entries) :
    Pattern.compiler.readSignal entry.2 = .ok (signal entry) := by
  have read : Pattern.compiler.pattern entry.2.1 = .ok entry.1.1.pattern :=
    eq_ok_of_toOption (toOption_ofText_entries entry member)
  rw [Compiler.readSignal, Compiler.readPattern_eq_ok_iff.mpr read]
  rfl

private theorem complexity_builtin : Catalog.builtin.complexity = entries.map signal := by
  have read := (Catalog.compile_eq_ok_iff.mp Catalog.compile_builtin).1
  have signals := mapM_eq_ok fun entry => readSignal_entries
  have rows : entries.map Prod.snd = Catalog.Builtin.complexity := rfl
  rw [rows] at signals
  exact Except.ok.inj (read.symm.trans signals)

theorem counts_builtin (text : List Char) :
    counts .builtin text = entries.map fun entry => entry.1.1.countIn text := by
  rw [counts, complexity_builtin, List.map_map]
  apply List.map_congr_left
  intro entry member
  exact count_pattern (isProper_entries entry member) text

/-! The sum of the weights -/

/-- The score before it is rounded. -/
def unrounded (catalog : Catalog) (text : List Char) : Float :=
  (catalog.complexity.zip (counts catalog text)).foldl
    (fun total entry => total + Float.ofNat entry.2 * entry.1.weight) base

/-- The same sum in exact arithmetic. -/
def exactTotal (catalog : Catalog) (text : List Char) : ℚ :=
  (catalog.complexity.zip (counts catalog text)).foldl
    (fun total entry => total + entry.2 * (exactValue? entry.1.weight).getD 0)
    ((exactValue? base).getD 0)

theorem isHalves_one : IsHalves 1.0 2 := by
  change IsHalves (Float.ofScientific 10 (decide ((-1 : Int) < 0)) (-1 : Int).natAbs) 2
  exact Decimal.isHalves_ofScientific (by norm_num) (by norm_num) (by norm_num)

private theorem isHalves_half : IsHalves 0.5 1 := by
  change IsHalves (Float.ofScientific 5 (decide ((-1 : Int) < 0)) (-1 : Int).natAbs) 1
  exact Decimal.isHalves_ofScientific (by norm_num) (by norm_num) (by norm_num)

theorem isHalves_weights : ∀ entry ∈ entries, IsHalves entry.2.2 entry.1.2 := by
  have nothing : IsHalves 0.0 0 := .inl ⟨rfl, rfl⟩
  simp only [entries, tokens, Catalog.Builtin.complexity, List.zip_cons_cons, List.zip_nil_left,
    List.forall_mem_cons, List.not_mem_nil, false_implies, implies_true, and_true, nothing,
    isHalves_one, isHalves_half]

private theorem zip_counts_builtin (text : List Char) :
    Catalog.builtin.complexity.zip (counts .builtin text) =
      entries.map fun entry => (signal entry, entry.1.1.countIn text) := by
  rw [counts_builtin, complexity_builtin, List.zip_map']

section Sums

variable {items : List Entry} (weights : ∀ entry ∈ items, IsHalves entry.2.2 entry.1.2)
  (count : Entry → Nat)
include weights

/-- Adding up weights as doubles adds up halves. -/
theorem isHalves_foldl {total : Float} {n : Nat} (start : IsHalves total n)
    (few : ∀ entry ∈ items, 2 * count entry < 2 ^ 53)
    (small : n + (items.map fun entry => count entry * entry.1.2).sum < 2 ^ 53) :
    IsHalves
      (items.foldl (fun total entry => total + Float.ofNat (count entry) * entry.2.2) total)
      (n + (items.map fun entry => count entry * entry.1.2).sum) := by
  induction items generalizing total n with
  | nil => exact start
  | cons entry items ih =>
      rw [List.map_cons, List.sum_cons, ← Nat.add_assoc] at small ⊢
      rw [List.forall_mem_cons] at weights few
      have product := (Decimal.isHalves_ofNat few.1).mul weights.1 (by omega)
      exact ih weights.2 (start.add product (by omega)) few.2 small

private theorem foldl_exact (total : ℚ) :
    items.foldl (fun total entry => total + count entry * (exactValue? entry.2.2).getD 0) total =
      total + ((items.map fun entry => count entry * entry.1.2).sum : Nat) / 2 := by
  induction items generalizing total with
  | nil => simp
  | cons entry items ih =>
      rw [List.forall_mem_cons] at weights
      rw [List.foldl_cons, ih weights.2, Decimal.exactValue?_of_isHalves weights.1, List.map_cons,
        List.sum_cons, Option.getD_some]
      push_cast
      ring

end Sums

/-- All that is counted, in halves. -/
def halvesIn (text : List Char) : Nat :=
  (entries.map fun entry => entry.1.1.countIn text * entry.1.2).sum

private theorem exactTotal_builtin (text : List Char) :
    exactTotal .builtin text = 1 + (halvesIn text : ℚ) / 2 := by
  rw [exactTotal, zip_counts_builtin, List.foldl_map, base,
    Decimal.exactValue?_of_isHalves isHalves_one]
  have sum := foldl_exact isHalves_weights (fun entry => entry.1.1.countIn text) 1
  rw [Option.getD_some, Nat.cast_ofNat, div_self two_ne_zero]
  exact sum

private theorem countIn_le_length {token : Token} (proper : token.IsProper) (text : List Char) :
    token.countIn text ≤ text.length := by
  rw [← count_pattern proper,
    Pattern.count_eq_countFrom (roundsTake_pattern token) (mayBeEmpty_pattern proper)]
  exact Pattern.countFrom_le_length 0 [] text

private theorem halvesIn_le (text : List Char) : halvesIn text ≤ 24 * text.length := by
  have light : ∀ entry ∈ entries, entry.1.2 ≤ 2 := by decide +kernel
  have each : ∀ halves ∈ entries.map fun entry => entry.1.1.countIn text * entry.1.2,
      halves ≤ text.length * 2 := by
    intro halves member
    obtain ⟨entry, inside, rfl⟩ := List.mem_map.mp member
    exact Nat.mul_le_mul (countIn_le_length (isProper_entries entry inside) text)
      (light entry inside)
  have rows : (entries.map fun entry => entry.1.1.countIn text * entry.1.2).length = 12 := rfl
  have sum := List.sum_le_card_nsmul _ _ each
  rw [rows, smul_eq_mul] at sum
  change halvesIn text ≤ 12 * (text.length * 2) at sum
  omega

private theorem isHalves_unrounded {text : List Char} (short : text.length < 2 ^ 48) :
    IsHalves (unrounded .builtin text) (2 + halvesIn text) := by
  rw [unrounded, zip_counts_builtin, List.foldl_map]
  have bound := halvesIn_le text
  apply isHalves_foldl isHalves_weights _ isHalves_one
  · intro entry member
    have few := countIn_le_length (isProper_entries entry member) text
    omega
  · change 2 + halvesIn text < 2 ^ 53
    omega

private theorem halvesIn_eq (text : List Char) :
    (halvesIn text : ℚ) / 2 =
      keywordCount "if" text + elseIfCount text + keywordCount "while" text +
        keywordCount "for" text + keywordCount "foreach" text + keywordCount "switch" text +
        keywordCount "case" text + keywordCount "catch" text + ternaryCount text +
        (pairCount '|' text + pairCount '&' text) / 2 := by
  simp only [halvesIn, entries, tokens, Catalog.Builtin.complexity, List.zip_cons_cons,
    List.zip_nil_left, List.map_cons, List.map_nil, List.sum_cons, List.sum_nil, Token.countIn]
  push_cast
  ring

/-- With the built-in catalog, the patterns of the score have as many matches as the plain counts
of the tokens say. Hence the score is, before it is rounded, one plus the tokens, of which `else`
adds nothing and a doubled sign one half. In doubles this sum is exact for every text of less than
2 ^ 48 characters. -/
theorem counts_and_unrounded_score (text : List Char) :
    counts .builtin text =
      [keywordCount "if" text, elseIfCount text, keywordCount "else" text,
       keywordCount "while" text, keywordCount "for" text, keywordCount "foreach" text,
       keywordCount "switch" text, keywordCount "case" text, keywordCount "catch" text,
       ternaryCount text, pairCount '|' text, pairCount '&' text] ∧
    exactTotal .builtin text =
      1 + (keywordCount "if" text + elseIfCount text + keywordCount "while" text +
        keywordCount "for" text + keywordCount "foreach" text + keywordCount "switch" text +
        keywordCount "case" text + keywordCount "catch" text + ternaryCount text +
        (pairCount '|' text + pairCount '&' text) / 2) ∧
    score .builtin text = roundToHundredths (unrounded .builtin text) ∧
    (text.length < 2 ^ 48 →
      exactValue? (unrounded .builtin text) = some (exactTotal .builtin text)) := by
  refine ⟨counts_builtin text, ?_, rfl, ?_⟩
  · rw [exactTotal_builtin, halvesIn_eq]
  · intro short
    rw [Decimal.exactValue?_of_isHalves (isHalves_unrounded short), exactTotal_builtin]
    push_cast
    ring_nf

/-- White space over two lines, an odd run of signs, and a letter beyond ASCII at a keyword. -/
theorem unrounded_score_of_mixed_text :
    counts .builtin "else \n if(a|||b) x? :c éif _if ifé".toList =
        [3, 1, 1, 0, 0, 0, 0, 0, 0, 1, 1, 0] ∧
      exactValue? (unrounded .builtin "else \n if(a|||b) x? :c éif _if ifé".toList) =
        some (13 / 2) := by
  obtain ⟨counted, total, _, exactly⟩ :=
    counts_and_unrounded_score "else \n if(a|||b) x? :c éif _if ifé".toList
  have values : counts .builtin "else \n if(a|||b) x? :c éif _if ifé".toList =
      [3, 1, 1, 0, 0, 0, 0, 0, 0, 1, 1, 0] := by
    rw [counted]
    decide +kernel
  refine ⟨values, ?_⟩
  rw [counted] at values
  simp only [List.cons.injEq] at values
  rw [exactly (by decide +kernel), total]
  norm_num [values]

end SnippetAudit.Complexity
