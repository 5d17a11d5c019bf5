import SnippetAudit.Decimal.Numeral

/-!
JSON values.

A number is kept as it is spelled, and an object keeps its members in order, repeated keys
included. A string literal that names half of a surrogate pair stands for no text. Such a literal is
well-formed, and so is an object that has it for a key. Both are kept as `unpaired`, so that they
can be passed over where their value is not asked for.
-/

set_option autoImplicit false

namespace SnippetAudit

inductive Json where
  | null
  | bool (value : Bool)
  | number (numeral : Numeral)
  | string (text : String)
  | unpaired
  | array (items : List Json)
  | object (members : List (String × Json))

namespace Json

/-- A double as a number, or null if it is not finite. -/
def ofFloat (x : Float) : Json :=
  match Numeral.ofFloat? x with
  | some numeral => .number numeral
  | none => .null

def ofNat (n : Nat) : Json :=
  .number (Numeral.ofNat n)

mutual

/-- Whether a value can be kept: nothing in it is unpaired, every number is in the range of doubles,
and arrays and objects are nested at most `depth` deep. -/
def keepable (depth : Nat) : Json → Bool
  | .null => true
  | .bool _ => true
  | .number numeral => numeral.toFloat?.isSome
  | .string _ => true
  | .unpaired => false
  | .array items => 0 < depth && itemsKeepable (depth - 1) items
  | .object members => 0 < depth && membersKeepable (depth - 1) members

def itemsKeepable (depth : Nat) : List Json → Bool
  | [] => true
  | item :: items => keepable depth item && itemsKeepable depth items

def membersKeepable (depth : Nat) : List (String × Json) → Bool
  | [] => true
  | (_, value) :: members => keepable depth value && membersKeepable depth members

end

end Json

end SnippetAudit
