import SnippetAudit.Pattern.Shape
import SnippetAudit.Text.Alphabetic

/-!
Reading a pattern from its text.

Literals, `.`, bracketed classes, groups, alternatives, repetitions, anchors, escapes and the mode
letters `i m s x U u R` are understood. Look-around, back-references and property classes are
refused, as is whatever is malformed. The first capturing group is the name of a match; other
groups only group.
-/

set_option autoImplicit false

namespace SnippetAudit

/-- Why a pattern text is refused. -/
inductive PatternFault where
  | unclosedGroup
  | unopenedGroup
  | badGroupName
  | repeatedGroupName
  | badModes
  | nothingToRepeat
  | badRepetition
  | unclosedClass
  | badClassItem
  | badClassRange
  | badEscape
  | unsupported
  | notText
  | tooLarge
  | tooDeep
  deriving DecidableEq, Repr

namespace Pattern.Reader

/-- The letters that switch a mode on or off. -/
inductive ModeLetter where
  | ignoreCase
  | multiLine
  | dotAll
  | swapGreed
  | unicode
  | carriageReturn
  | verbose
  deriving DecidableEq, Repr

def ModeLetter.ofChar? (c : Char) : Option ModeLetter :=
  if c = 'i' then some .ignoreCase
  else if c = 'm' then some .multiLine
  else if c = 's' then some .dotAll
  else if c = 'U' then some .swapGreed
  else if c = 'u' then some .unicode
  else if c = 'R' then some .carriageReturn
  else if c = 'x' then some .verbose
  else none

/-- The modes in force at a point of the pattern text. -/
structure Modes where
  ignoreCase : Bool := false
  multiLine : Bool := false
  dotAll : Bool := false
  swapGreed : Bool := false
  unicode : Bool := true
  carriageReturn : Bool := false
  verbose : Bool := false
  deriving DecidableEq, Repr

namespace Modes

def switch (modes : Modes) (on : Bool) : ModeLetter → Modes
  | .ignoreCase => { modes with ignoreCase := on }
  | .multiLine => { modes with multiLine := on }
  | .dotAll => { modes with dotAll := on }
  | .swapGreed => { modes with swapGreed := on }
  | .unicode => { modes with unicode := on }
  | .carriageReturn => { modes with carriageReturn := on }
  | .verbose => { modes with verbose := on }

/-- Passes over white space and comments. -/
def skipTrivia (inComment : Bool) : List Char → List Char
  | [] => []
  | c :: rest =>
      if inComment then skipTrivia (c ≠ '\n') rest
      else if c = '#' then skipTrivia true rest
      else if Text.isWhite c then skipTrivia false rest
      else c :: rest

/-- Passes over what means nothing here: in verbose mode, white space and comments. -/
def skip (modes : Modes) (text : List Char) : List Char :=
  if modes.verbose then skipTrivia false text else text

/-- A set as it is meant under the case mode. Outside Unicode mode only ASCII has case. -/
def fold (modes : Modes) (set : CharSet) : CharSet :=
  if !modes.ignoreCase then set
  else if modes.unicode then set.anyCase
  else set.anyAsciiCase

/-- The characters that a dot stands for. Outside Unicode mode a dot would match bytes that are no
text. -/
def dot (modes : Modes) : Except PatternFault CharSet :=
  if !modes.unicode then .error .notText
  else if modes.dotAll then .ok .anything
  else if modes.carriageReturn then
    .ok (CharSet.union (.single '\r') (.single '\n')).compl
  else .ok (CharSet.single '\n').compl

def caret (modes : Modes) : Anchor :=
  if !modes.multiLine then .textStart
  else if modes.carriageReturn then .anyLineStart
  else .lineStart

def dollar (modes : Modes) : Anchor :=
  if !modes.multiLine then .textEnd
  else if modes.carriageReturn then .anyLineEnd
  else .lineEnd

end Modes

/-! Escapes -/

/-- What a backslash sequence stands for. `isByte` tells a two-digit hexadecimal escape, which
outside Unicode mode is a byte. -/
inductive Escape where
  | literal (c : Char) (isByte : Bool)
  | set (set : CharSet)
  | anchor (anchor : Anchor)

def hexDigit? (c : Char) : Option Nat :=
  if '0' ≤ c && c ≤ '9' then some (c.toNat - 48)
  else if 'a' ≤ c && c ≤ 'f' then some (c.toNat - 87)
  else if 'A' ≤ c && c ≤ 'F' then some (c.toNat - 55)
  else none

/-- The character with this code, if it is one. -/
def scalar? (code : Nat) : Option Char :=
  if code.isValidChar then some (Char.ofNat code) else none

/-- Exactly `count` hexadecimal digits. -/
def readHexDigits (modes : Modes) : Nat → Nat → List Char → Except PatternFault (Nat × List Char)
  | 0, value, text => .ok (value, text)
  | _ + 1, _, [] => .error .badEscape
  | count + 1, value, c :: rest =>
      match hexDigit? c with
      | none => .error .badEscape
      | some digit => readHexDigits modes count (16 * value + digit) (modes.skip rest)

/-- Hexadecimal digits up to a closing brace; `budget` is at least the length of the text. -/
def readHexBraces (modes : Modes) :
    Nat → Option Nat → List Char → Except PatternFault (Nat × List Char)
  | 0, _, _ => .error .badEscape
  | _ + 1, _, [] => .error .badEscape
  | budget + 1, value, c :: rest =>
      if c = '\x7d' then
        match value with
        | none => .error .badEscape
        | some value => .ok (value, modes.skip rest)
      else
        match hexDigit? c with
        | none => .error .badEscape
        | some digit =>
            readHexBraces modes budget (some (16 * value.getD 0 + digit)) (modes.skip rest)

/-- The rest of an escape after `\x`, `\u` or `\U`, which take two, four or eight digits. -/
def readHex (modes : Modes) (width : Nat) (text : List Char) :
    Except PatternFault (Escape × List Char) := do
  let text := modes.skip text
  let (value, rest) ←
    match text with
    | '\x7b' :: inner => readHexBraces modes (inner.length + 1) none (modes.skip inner)
    | _ => readHexDigits modes width 0 text
  match scalar? value with
  | some c => .ok (.literal c (width = 2 && text.head? != some '\x7b'), rest)
  | none => .error .badEscape

/-- A class letter that means the complement of a set matches no text outside Unicode mode. -/
def complementSet (modes : Modes) (set : CharSet) : Except PatternFault Escape :=
  if modes.unicode then .ok (.set set.compl) else .error .notText

/-- The letters that a word-boundary suffix is made of. -/
def isBoundaryLetter (c : Char) : Bool :=
  ('a' ≤ c && c ≤ 'z') || ('A' ≤ c && c ≤ 'Z') || c = '-'

/-- The longest run of letters of a word-boundary suffix; `budget` is at least the length of the
text. -/
def readBoundaryLetters (modes : Modes) : Nat → List Char → List Char × List Char
  | 0, text => ([], text)
  | _ + 1, [] => ([], [])
  | budget + 1, c :: rest =>
      if isBoundaryLetter c then
        let (letters, rest) := readBoundaryLetters modes budget (modes.skip rest)
        (c :: letters, rest)
      else ([], c :: rest)

/-- A word boundary, after `\b`. It may carry one of the suffixes `{start}`, `{end}`,
`{start-half}` and `{end-half}`; braces that do not start with a letter are left to a repetition. -/
def readBoundary (modes : Modes) (text : List Char) :
    Except PatternFault (Escape × List Char) :=
  match text with
  | '\x7b' :: rest =>
      match modes.skip rest with
      | [] => .error .badEscape
      | c :: rest =>
          if isBoundaryLetter c then
            match readBoundaryLetters modes (rest.length + 1) (c :: rest) with
            | (letters, '\x7d' :: rest) =>
                if letters = "start".toList then .ok (.anchor .wordStart, rest)
                else if letters = "end".toList then .ok (.anchor .wordEnd, rest)
                else if letters = "start-half".toList then .ok (.anchor .wordStartHalf, rest)
                else if letters = "end-half".toList then .ok (.anchor .wordEndHalf, rest)
                else .error .badEscape
            | _ => .error .badEscape
          else .ok (.anchor .wordEdge, text)
  | _ => .ok (.anchor .wordEdge, text)

/-- Whether a backslash may stand before the character to take it literally: any character of
ASCII but letters, digits, `<` and `>`. -/
def isEscapable (c : Char) : Bool :=
  c.toNat < 128 && !c.isAlphanum && c ≠ '<' && c ≠ '>'

/-- Reads an escape; `text` starts behind the backslash. -/
def readEscape (modes : Modes) (text : List Char) : Except PatternFault (Escape × List Char) :=
  match text with
  | [] => .error .badEscape
  | c :: rest =>
      if c.isDigit then .error .unsupported
      else if c = 'p' || c = 'P' then .error .unsupported
      else if c = 'x' then readHex modes 2 rest
      else if c = 'u' then readHex modes 4 rest
      else if c = 'U' then readHex modes 8 rest
      else if c = 'd' then .ok (.set .digit, rest)
      else if c = 's' then .ok (.set (if modes.unicode then .white else .space), rest)
      else if c = 'w' then .ok (.set (if modes.unicode then .foldedWord else .word), rest)
      else if c = 'D' then (complementSet modes .digit).map (·, rest)
      else if c = 'S' then (complementSet modes .white).map (·, rest)
      else if c = 'W' then (complementSet modes .foldedWord).map (·, rest)
      else if isEscapable c then .ok (.literal c false, rest)
      else if c = 'a' then .ok (.literal '\x07' false, rest)
      else if c = 'f' then .ok (.literal '\x0c' false, rest)
      else if c = 't' then .ok (.literal '\t' false, rest)
      else if c = 'n' then .ok (.literal '\n' false, rest)
      else if c = 'r' then .ok (.literal '\r' false, rest)
      else if c = 'v' then .ok (.literal '\x0b' false, rest)
      else if c = 'A' then .ok (.anchor .textStart, rest)
      else if c = 'z' then .ok (.anchor .textEnd, rest)
      else if c = 'b' then readBoundary modes rest
      else if c = 'B' then .ok (.anchor .notWordEdge, rest)
      else if c = '<' then .ok (.anchor .wordStart, rest)
      else if c = '>' then .ok (.anchor .wordEnd, rest)
      else .error .badEscape

/-- A literal byte above 127 is no text. -/
def literalSet (modes : Modes) (c : Char) (isByte : Bool) : Except PatternFault CharSet :=
  if isByte && !modes.unicode && 127 < c.toNat then .error .notText
  else .ok (modes.fold (CharSet.single c))

/-! Bracketed classes -/

/-- What may combine two sets inside a class. -/
inductive SetOp where
  | inter
  | diff
  | symmDiff
  deriving DecidableEq, Repr

def SetOp.apply (left right : CharSet) : SetOp → CharSet
  | .inter => left.inter right
  | .diff => left.diff right
  | .symmDiff => left.symmDiff right

/-- A set, and how deep classes are nested in its description. -/
structure NestedSet where
  set : CharSet
  depth : Nat := 0

/-- The set read so far in a class: what stands before the last operator, and the items that follow
it. -/
structure ClassSoFar where
  left : Option (NestedSet × SetOp) := none
  right : NestedSet := { set := .nothing }
  itemCount : Nat := 0

namespace ClassSoFar

def add (sofar : ClassSoFar) (item : NestedSet) : ClassSoFar :=
  { sofar with
    right :=
      { set := sofar.right.set.union item.set, depth := max sofar.right.depth item.depth }
    itemCount := sofar.itemCount + 1 }

/-- What follows the last operator. Two items or more count as one more level. -/
def items (sofar : ClassSoFar) : NestedSet :=
  if sofar.itemCount < 2 then sofar.right
  else { sofar.right with depth := sofar.right.depth + 1 }

/-- The set of all that was read; operators associate to the left. -/
def total (modes : Modes) (sofar : ClassSoFar) : NestedSet :=
  match sofar.left with
  | none => sofar.items
  | some (left, op) =>
      { set := op.apply (modes.fold left.set) (modes.fold sofar.items.set)
        depth := max left.depth sofar.items.depth + 1 }

def operate (modes : Modes) (sofar : ClassSoFar) (op : SetOp) : ClassSoFar :=
  { left := some (sofar.total modes, op) }

end ClassSoFar

/-- The start of a class: whether it is negated, and the literal `-` and `]` that may come first. -/
def readClassStart (modes : Modes) (text : List Char) :
    Except PatternFault (Bool × ClassSoFar × List Char) :=
  let text := modes.skip text
  let negated := text.head? = some '^'
  let text := if negated then modes.skip text.tail else text
  let rec dashes (budget : Nat) (sofar : ClassSoFar) (text : List Char) :
      ClassSoFar × List Char :=
    match budget, text with
    | budget + 1, '-' :: rest => dashes budget (sofar.add { set := .single '-' }) (modes.skip rest)
    | _, _ => (sofar, text)
  let (sofar, rest) := dashes text.length {} text
  match rest with
  | [] => .error .unclosedClass
  | ']' :: inner =>
      if text.head? = some '-' then .ok (negated, sofar, rest)
      else .ok (negated, sofar.add { set := .single ']' }, inner)
  | _ => .ok (negated, sofar, rest)

/-- A named set such as `[:alpha:]`; `text` starts behind its opening bracket. -/
def readNamedSet? (text : List Char) : Option (CharSet × Bool × List Char) :=
  match text with
  | ':' :: rest =>
      let negated := rest.head? = some '^'
      let rest := if negated then rest.tail else rest
      match rest.dropWhile (· ≠ ':') with
      | ':' :: ']' :: after =>
          (CharSet.ofName? (rest.takeWhile (· ≠ ':'))).map fun set => (set, negated, after)
      | _ => none
  | _ => none

/-- One item of a class: a literal character or an escape. -/
def readClassItem (modes : Modes) (text : List Char) : Except PatternFault (Escape × List Char) :=
  match text with
  | [] => .error .unclosedClass
  | '\\' :: rest => readEscape modes rest
  | c :: rest => .ok (.literal c false, rest)

/-- Outside Unicode mode a class holds characters of ASCII only. -/
def classLiteral (modes : Modes) : Escape → Except PatternFault Char
  | .literal c _ => if modes.unicode || c.toNat < 128 then .ok c else .error .notText
  | _ => .error .badClassRange

def classItemSet (modes : Modes) : Escape → Except PatternFault CharSet
  | .literal c isByte => (classLiteral modes (.literal c isByte)).map CharSet.single
  | .set set => .ok set
  | .anchor _ => .error .badClassItem

/-- A single item or a range of a class. -/
def readClassRange (modes : Modes) (text : List Char) :
    Except PatternFault (CharSet × List Char) := do
  let (first, rest) ← readClassItem modes text
  match modes.skip rest with
  | [] => .error .unclosedClass
  | '-' :: behind =>
      match modes.skip behind with
      | [] => .error .unclosedClass
      | next :: _ =>
          if next = ']' || next = '-' then
            return (← classItemSet modes first, '-' :: behind)
          else
            let (last, rest) ← readClassItem modes (modes.skip behind)
            let low ← classLiteral modes first
            let high ← classLiteral modes last
            if low ≤ high then return (.range low high, rest) else .error .badClassRange
  | rest => return (← classItemSet modes first, rest)

/-- A set or its complement, as it is meant under the case mode. Outside Unicode mode a complement
would match bytes that are no text. -/
def closeSet (modes : Modes) (negated : Bool) (set : CharSet) : Except PatternFault CharSet :=
  if !negated then .ok (modes.fold set)
  else if modes.unicode then .ok (modes.fold set).compl
  else .error .notText

/-- The set of a finished class. -/
def closeClass (modes : Modes) (negated : Bool) (sofar : ClassSoFar) :
    Except PatternFault NestedSet := do
  let total := sofar.total modes
  return { set := ← closeSet modes negated total.set, depth := total.depth + 1 }

/-- Reads a class up to its closing bracket. Each round takes a character, so a budget above the
length of the text is enough. -/
def readClass (modes : Modes) :
    Nat → Bool → ClassSoFar → List Char → Except PatternFault (NestedSet × List Char)
  | 0, _, _, _ => .error .unclosedClass
  | budget + 1, negated, sofar, text =>
      match modes.skip text with
      | [] => .error .unclosedClass
      | ']' :: rest => (closeClass modes negated sofar).map (·, rest)
      | '[' :: rest =>
          match readNamedSet? rest with
          | some (set, complement, rest) => do
              let set ← closeSet modes complement set
              readClass modes budget negated (sofar.add { set }) rest
          | none => do
              let (innerNegated, inner, rest) ← readClassStart modes rest
              let (item, rest) ← readClass modes budget innerNegated inner rest
              readClass modes budget negated (sofar.add item) rest
      | '&' :: '&' :: rest => readClass modes budget negated (sofar.operate modes .inter) rest
      | '-' :: '-' :: rest => readClass modes budget negated (sofar.operate modes .diff) rest
      | '~' :: '~' :: rest => readClass modes budget negated (sofar.operate modes .symmDiff) rest
      | text => do
          let (set, rest) ← readClassRange modes text
          readClass modes budget negated (sofar.add { set }) rest

/-! Groups and repetitions -/

/-- A shape, and how deep groups, repetitions, classes, sequences and alternatives are nested in
its description. -/
structure NestedShape where
  shape : Shape
  depth : Nat := 0

/-- The greatest depth of nested shapes. -/
def deepest (shapes : List NestedShape) : Nat :=
  shapes.foldl (fun depth nested => max depth nested.depth) 0

/-- The alternatives of one level, and the pieces of the current one; both are kept last first. A
missing piece stands for a change of modes, which cannot be repeated. -/
structure Level where
  branches : List NestedShape := []
  pieces : List (Option NestedShape) := []

namespace Level

def push (level : Level) (piece : NestedShape) : Level :=
  { level with pieces := some piece :: level.pieces }

/-- The current alternative. -/
def branch (level : Level) : NestedShape :=
  let pieces := level.pieces.reverse.filterMap id
  { shape := Shape.sequence (pieces.map (·.shape))
    depth := deepest pieces + if level.pieces.length < 2 then 0 else 1 }

/-- The choice between all alternatives. -/
def choice (level : Level) : NestedShape :=
  let branches := (level.branch :: level.branches).reverse
  { shape := Shape.choice (branches.map (·.shape))
    depth := deepest branches + if branches.length < 2 then 0 else 1 }

end Level

/-- A group that is still open: what surrounds it, and its number if it is a capturing one. -/
structure OpenGroup where
  modes : Modes
  level : Level
  number : Option Nat

/-- The state between two pieces. -/
structure State where
  modes : Modes := {}
  level : Level := {}
  outer : List OpenGroup := []
  groupCount : Nat := 0
  groupNames : List (List Char) := []

namespace State

def push (state : State) (piece : NestedShape) : State :=
  { state with level := state.level.push piece }

def openGroup (state : State) (inner : Modes) (number : Option Nat) : State :=
  { state with
    modes := inner
    level := {}
    outer := { modes := state.modes, level := state.level, number } :: state.outer }

/-- Opens a capturing group. -/
def openCapture (state : State) : State :=
  let number := state.groupCount + 1
  { state.openGroup state.modes (some number) with groupCount := number }

def closeGroup (state : State) : Except PatternFault State :=
  match state.outer with
  | [] => .error .unopenedGroup
  | group :: outer =>
      let inner := state.level.choice
      let shape :=
        match group.number with
        | some number => .group number inner.shape
        | none => inner.shape
      .ok
        { state with
          modes := group.modes
          level := group.level.push { shape, depth := inner.depth + 1 }
          outer }

def finish (state : State) : Except PatternFault NestedShape :=
  match state.outer with
  | [] => .ok state.level.choice
  | _ :: _ => .error .unclosedGroup

end State

/-- Mode letters up to `)` or `:`, as switches in their order, with the closing character. Nothing
may be named twice, and a minus needs a letter after it. -/
def readModeLetters (negative afterMinus : Bool) (switches : List (ModeLetter × Bool)) :
    List Char → Except PatternFault (List (ModeLetter × Bool) × Char × List Char)
  | [] => .error .badModes
  | c :: rest =>
      if c = ')' || c = ':' then
        if afterMinus then .error .badModes else .ok (switches.reverse, c, rest)
      else if c = '-' then
        if negative then .error .badModes else readModeLetters true true switches rest
      else
        match ModeLetter.ofChar? c with
        | none => .error .badModes
        | some letter =>
            if switches.any fun (seen, _) => seen = letter then .error .badModes
            else readModeLetters negative false ((letter, !negative) :: switches) rest

def Modes.switchAll (modes : Modes) (switches : List (ModeLetter × Bool)) : Modes :=
  switches.foldl (fun modes (letter, on) => modes.switch on letter) modes

/-- Whether a character may stand in a group's name. A name starts with a letter or an underscore;
numbers, dots and brackets may follow. -/
def isNameChar (isFirst : Bool) (c : Char) : Bool :=
  c = '_' || Text.isAlphabetic c ||
    (!isFirst && (Text.isAlphanumeric c || c = '.' || c = '[' || c = ']'))

/-- A group's name up to the closing angle bracket. -/
def readGroupName (text : List Char) : Except PatternFault (List Char × List Char) :=
  let label := text.takeWhile (· ≠ '>')
  match text.dropWhile (· ≠ '>'), label with
  | [], _ => .error .badGroupName
  | _ :: _, [] => .error .badGroupName
  | _ :: rest, first :: others =>
      if isNameChar true first && others.all (isNameChar false) then .ok (label, rest)
      else .error .badGroupName

def openNamedGroup (state : State) (text : List Char) :
    Except PatternFault (State × List Char) := do
  let (label, rest) ← readGroupName text
  if state.groupNames.contains label then .error .repeatedGroupName
  else
    let opened := state.openCapture
    return ({ opened with groupNames := label :: state.groupNames }, rest)

/-- Reads what stands behind an opening parenthesis: a group's start, or a change of modes. -/
def readGroupStart (state : State) (text : List Char) :
    Except PatternFault (State × List Char) :=
  match state.modes.skip text with
  | '?' :: '=' :: _ => .error .unsupported
  | '?' :: '!' :: _ => .error .unsupported
  | '?' :: '<' :: '=' :: _ => .error .unsupported
  | '?' :: '<' :: '!' :: _ => .error .unsupported
  | '?' :: 'P' :: '<' :: rest => openNamedGroup state rest
  | '?' :: '<' :: rest => openNamedGroup state rest
  | '?' :: rest => do
      let (switches, closing, rest) ← readModeLetters false false [] rest
      let modes := state.modes.switchAll switches
      if closing = ':' then return (state.openGroup modes none, rest)
      else if switches.isEmpty then .error .nothingToRepeat
      else
        let level := { state.level with pieces := none :: state.level.pieces }
        return ({ state with modes, level }, rest)
  | rest => .ok (state.openCapture, rest)

/-- Replaces the last piece by its repetition. -/
def repeatLast (state : State) (least : Nat) (most : Option Nat) (greedy : Bool) :
    Except PatternFault State :=
  match state.level.pieces with
  | some piece :: pieces =>
      let repeated : NestedShape :=
        { shape := piece.shape.repeated least most greedy, depth := piece.depth + 1 }
      .ok { state with level := { state.level with pieces := some repeated :: pieces } }
  | _ => .error .nothingToRepeat

/-- Whether a repetition is greedy: a question mark behind it and the swap mode each turn it
around. -/
def readGreed (modes : Modes) (text : List Char) : Bool × List Char :=
  match text with
  | '?' :: rest => (modes.swapGreed, rest)
  | rest => (!modes.swapGreed, rest)

/-- A run of digits; `budget` is at least the length of the text. -/
def readDigits (modes : Modes) : Nat → List Char → List Char × List Char
  | 0, text => ([], text)
  | _ + 1, [] => ([], [])
  | budget + 1, c :: rest =>
      if c.isDigit then
        let (digits, rest) := readDigits modes budget (modes.skip rest)
        (c :: digits, rest)
      else ([], c :: rest)

/-- A count of rounds, with white space around it; `none` if there are no digits. A count has to
fit in 32 bits. -/
def readCount (modes : Modes) (text : List Char) :
    Except PatternFault (Option Nat × List Char) :=
  let text := Text.trimStart text
  let (digits, rest) := readDigits modes text.length text
  let rest := modes.skip (Text.trimStart rest)
  let value := digits.foldl (fun value c => 10 * value + (c.toNat - 48)) 0
  if digits.isEmpty then .ok (none, rest)
  else if value < 0x100000000 then .ok (some value, rest)
  else .error .badRepetition

/-- The least and, if there is one, the greatest number of rounds; `text` starts behind the opening
brace and the rest behind the closing one. -/
def readBounds (modes : Modes) (text : List Char) :
    Except PatternFault (Nat × Option Nat × List Char) := do
  let (least, rest) ← readCount modes (modes.skip text)
  match least with
  | none => .error .badRepetition
  | some least =>
      match rest with
      | '\x7d' :: rest => return (least, some least, rest)
      | ',' :: rest =>
          match modes.skip rest with
          | '\x7d' :: rest => return (least, none, rest)
          | rest =>
              let (most, rest) ← readCount modes rest
              match most, rest with
              | some most, '\x7d' :: rest =>
                  if least ≤ most then return (least, some most, rest)
                  else .error .badRepetition
              | _, _ => .error .badRepetition
      | _ => .error .badRepetition

def readBraces (state : State) (text : List Char) :
    Except PatternFault (State × List Char) := do
  let (least, most, rest) ← readBounds state.modes text
  let (greedy, rest) := readGreed state.modes (state.modes.skip rest)
  return (← repeatLast state least most greedy, rest)

/-- Reads one piece or one sign; `text` starts behind its first character. -/
def readPiece (state : State) (c : Char) (text : List Char) :
    Except PatternFault (State × List Char) :=
  if c = '(' then readGroupStart state text
  else if c = ')' then (state.closeGroup).map (·, text)
  else if c = '|' then
    let branches := state.level.branch :: state.level.branches
    .ok ({ state with level := { branches } }, text)
  else if c = '[' then do
    let (negated, sofar, rest) ← readClassStart state.modes text
    let (item, rest) ← readClass state.modes (text.length + 1) negated sofar rest
    return (state.push { shape := .one item.set, depth := item.depth }, rest)
  else if c = '?' then
    let (greedy, rest) := readGreed state.modes text
    (repeatLast state 0 (some 1) greedy).map (·, rest)
  else if c = '*' then
    let (greedy, rest) := readGreed state.modes text
    (repeatLast state 0 none greedy).map (·, rest)
  else if c = '+' then
    let (greedy, rest) := readGreed state.modes text
    (repeatLast state 1 none greedy).map (·, rest)
  else if c = '\x7b' then
    match state.level.pieces with
    | some _ :: _ => readBraces state text
    | _ => .error .nothingToRepeat
  else if c = '.' then
    state.modes.dot.map fun set => (state.push { shape := .one set }, text)
  else if c = '^' then .ok (state.push { shape := .look state.modes.caret }, text)
  else if c = '$' then .ok (state.push { shape := .look state.modes.dollar }, text)
  else if c = '\\' then do
    let (escape, rest) ← readEscape state.modes text
    match escape with
    | .literal c isByte =>
        let set ← literalSet state.modes c isByte
        return (state.push { shape := .one set }, rest)
    | .set set => return (state.push { shape := .one set }, rest)
    | .anchor anchor => return (state.push { shape := .look anchor }, rest)
  else .ok (state.push { shape := .one (state.modes.fold (.single c)) }, text)

/-- Reads pieces to the end of the text. Each takes a character, so a budget above the length of
the text is enough. -/
def readPieces : Nat → State → List Char → Except PatternFault NestedShape
  | 0, _, _ => .error .tooLarge
  | budget + 1, state, text =>
      match state.modes.skip text with
      | [] => state.finish
      | c :: rest => do
          let (state, rest) ← readPiece state c rest
          readPieces budget state rest

end Reader

/-- A pattern may have this many parts once its repetitions are written out. -/
def sizeLimit : Nat := 327680

/-- A pattern may be nested this deep. -/
def depthLimit : Nat := 250

/-- Reads a pattern from its text. -/
def ofText (text : List Char) : Except PatternFault Pattern := do
  let nested ← Reader.readPieces (text.length + 1) {} text
  if depthLimit < nested.depth then .error .tooDeep
  else if sizeLimit < nested.shape.size then .error .tooLarge
  else return nested.shape.pattern

end Pattern

end SnippetAudit
