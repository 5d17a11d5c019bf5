import SnippetAudit.Command.Session
import SnippetAudit.Proofs.Text.Decoding

/-!
What each input of a run gives, told by its place among the inputs.

A file gives its own content wherever it stands; standard input gives all that it holds to the first
input that reads it, and nothing to the others. The limit is one on the length of the text. That is
the number of bytes that were read unless some of them are not UTF-8, and may be more then.
-/

set_option autoImplicit false

namespace SnippetAudit

namespace Input

variable (read : List UInt8 → Except ReadFailure (List UInt8))
variable (console : Except ReadFailure (List UInt8))

/-- What reading standard input gives behind earlier inputs. -/
def consoleAfter (earlier : List Input) : Except ReadFailure (List UInt8) :=
  if earlier.any isConsole then console.map fun _ => [] else console

/-- What reading an input gives behind earlier ones. -/
def contentAfter (earlier : List Input) : Input → Except ReadFailure (List UInt8)
  | .console => consoleAfter console earlier
  | .file path => read path

private theorem remaining_consoleAfter (earlier : List Input) (input : Input) :
    input.remaining (consoleAfter console earlier) =
      consoleAfter console (earlier ++ [input]) := by
  cases input with
  | file path => simp [remaining, consoleAfter, isConsole]
  | console =>
      have again : (earlier ++ [Input.console]).any isConsole = true := by simp [isConsole]
      rw [remaining, consoleAfter, consoleAfter, if_pos again]
      -- a second reading finds as little as a third
      split_ifs
      · cases console <;> rfl
      · rfl

private theorem readAll_behind (earlier inputs : List Input) :
    readAll read (consoleAfter console earlier) inputs =
      inputs.zipIdx.map fun entry =>
        (entry.1, entry.1.contentAfter read console (earlier ++ inputs.take entry.2)) := by
  induction inputs generalizing earlier with
  | nil => rfl
  | cons input inputs ih =>
      have content : input.content read (consoleAfter console earlier) =
          input.contentAfter read console earlier := by
        cases input <;> rfl
      rw [readAll, content, remaining_consoleAfter, ih, List.zipIdx_cons, List.zipIdx_succ]
      simp

private theorem readAll_eq (inputs : List Input) :
    readAll read console inputs = inputs.zipIdx.map fun entry =>
      (entry.1, entry.1.contentAfter read console (inputs.take entry.2)) :=
  readAll_behind read console [] inputs

end Input

namespace Command

open Text.Utf8 (Cut added encode decodeLossy)

section

variable (limit : Nat) (lang : Option String)
variable (read : List UInt8 → Except ReadFailure (List UInt8))
variable (console : Except ReadFailure (List UInt8))

theorem sources_eq (inputs : List Input) :
    sources limit lang read console inputs = inputs.zipIdx.map fun entry =>
      (entry.1, sourceOf limit lang entry.1
        (entry.1.contentAfter read console (inputs.take entry.2))) := by
  rw [sources, Input.readAll_eq, List.map_map]
  rfl

theorem getElem?_sources {inputs : List Input} {place : Nat} {input : Input}
    (stands : inputs[place]? = some input) :
    (sources limit lang read console inputs)[place]? =
      some (input, sourceOf limit lang input
        (input.contentAfter read console (inputs.take place))) := by
  rw [sources_eq, List.getElem?_map, List.getElem?_zipIdx, stands]
  simp

end

/-! The limit -/

theorem sourceOf_ok (limit : Nat) (lang : Option String) (input : Input) (bytes : List UInt8) :
    sourceOf limit lang input (.ok bytes) =
      if limit < Text.byteLength (decodeLossy bytes) then
        .error (.tooLong (Text.byteLength (decodeLossy bytes)) limit)
      else .ok {
        label := input.label
        hint := (lang <|> input.language?).getD ""
        text := String.ofList (decodeLossy bytes) } := rfl

/-- Whether the input at a place is passed over for its length. -/
def TooLong (limit : Nat) (lang : Option String)
    (read : List UInt8 → Except ReadFailure (List UInt8))
    (console : Except ReadFailure (List UInt8)) (inputs : List Input) (place : Nat) : Prop :=
  ∃ input length,
    (sources limit lang read console inputs)[place]? = some (input, .error (.tooLong length limit))

section

variable {limit : Nat} {lang : Option String}
variable {read : List UInt8 → Except ReadFailure (List UInt8)}
variable {console : Except ReadFailure (List UInt8)}
variable {inputs : List Input} {place : Nat} {input : Input} {bytes : List UInt8}

theorem tooLong_iff (stands : inputs[place]? = some input)
    (readable : input.contentAfter read console (inputs.take place) = .ok bytes) :
    TooLong limit lang read console inputs place ↔ limit < Text.byteLength (decodeLossy bytes) := by
  rw [TooLong, getElem?_sources limit lang read console stands, readable, sourceOf_ok]
  split_ifs with long <;> simp [long]

/-- An input that can be read is passed over for its length exactly if the bytes that were read and
those that replacing the faults among them adds are more than the limit, and is taken otherwise. So
the limit is one on the bytes unless it lies between the two numbers, which it never does for UTF-8;
any other input is sure to be taken only with at most a third of the limit. -/
theorem tooLong_iff_lt_added (stands : inputs[place]? = some input)
    (readable : input.contentAfter read console (inputs.take place) = .ok bytes) :
    (∃ cut, Cut bytes cut) ∧
    (∀ cut, Cut bytes cut →
      (TooLong limit lang read console inputs place ↔ limit < bytes.length + added cut) ∧
      ((TooLong limit lang read console inputs place ↔ limit < bytes.length) ↔
        limit < bytes.length ∨ bytes.length + added cut ≤ limit)) ∧
    (¬ TooLong limit lang read console inputs place →
      (sources limit lang read console inputs)[place]? = some (input, .ok {
        label := input.label
        hint := (lang <|> input.language?).getD ""
        text := String.ofList (decodeLossy bytes) })) ∧
    (∀ text, bytes = encode text →
      (TooLong limit lang read console inputs place ↔ limit < bytes.length)) ∧
    (TooLong limit lang read console inputs place → limit < 3 * bytes.length) := by
  have exact : ∀ cut, Cut bytes cut →
      (TooLong limit lang read console inputs place ↔ limit < bytes.length + added cut) := by
    intro cut isCut
    rw [tooLong_iff stands readable, isCut.byteLength_eq]
  refine ⟨Text.Utf8.exists_cut bytes, ?_, ?_, ?_, ?_⟩
  · intro cut isCut
    rw [exact cut isCut]
    exact ⟨Iff.rfl, by omega⟩
  · intro short
    rw [tooLong_iff stands readable] at short
    rw [getElem?_sources limit lang read console stands, readable, sourceOf_ok, if_neg short]
  · intro text same
    subst same
    rw [exact _ (Text.Utf8.cut_encode text), Text.Utf8.added_characters, Nat.add_zero]
  · intro long
    obtain ⟨cut, isCut⟩ := Text.Utf8.exists_cut bytes
    have bound := isCut.added_le
    rw [exact cut isCut] at long
    omega

end

/-- A letter and a byte that starts no character, which become four bytes of text. -/
theorem tooLong_letter_and_fault :
    TooLong 3 none (fun _ => .ok [0x61, 0xFF]) (.ok []) [.file (Path.ofText "a.c")] 0 := by
  have alien : ¬ Text.Utf8.Starts [0xFF] := by
    intro starts
    have lead := Text.Utf8.lead_of_starts starts
    revert lead
    decide
  have isCut : Cut [0x61, 0xFF] [.character 'a', .fault [0xFF]] :=
    .character (c := 'a') (.fault (Text.Utf8.fault_of_alien alien []) .nil)
  exact ((tooLong_iff_lt_added rfl rfl).2.1 _ isCut).1.mpr (by decide)

/-- A single byte that is not UTF-8 is not taken under a limit of two bytes. -/
theorem run_rejects_short_input :
    let files : Files := Files.addFile {} "codeengage.toml"
      (encode "[limits]\nmax_input_bytes = 2\n".toList)
    ([0xFF] : List UInt8).length ≤ 2 ∧
    run { look := files.look, read := files.read, console := .ok [0xFF], coloured := false }
      { task := .analyze [Path.ofText "-"] none .text false false } =
    { exit := .invalidInput
      log :=
        ["WARN skipping <stdin>: 3 bytes exceeds limit of 2", "error: no readable input"] } := by
  decide +kernel

end Command

end SnippetAudit
