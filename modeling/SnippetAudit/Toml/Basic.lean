/-!
TOML documents as trees of tables.

What a later line may add to a table depends on how the table came about, so each table carries its
origin: it was named by a header, implied on the way to a header, made on the way by a dotted key,
or written inline, in which case it is complete.
-/

set_option autoImplicit false

namespace SnippetAudit.Toml

/-- How a table came about. -/
inductive Origin where
  | header
  | implied
  | dotted
  | inline
  deriving DecidableEq, Repr

/-- A value without parts. Of floats and of dates and times only the kind is kept. -/
inductive Scalar where
  | string (text : String)
  | integer (value : Int)
  | float
  | boolean (value : Bool)
  | moment
  deriving DecidableEq, Repr

/-- What a key stands for. The elements of an array of tables are kept as the latest, which alone
can still grow, and the earlier ones, last first. -/
inductive Node where
  | scalar (value : Scalar)
  | array (items : List Node)
  | table (origin : Origin) (members : List (String × Node))
  | tables (latest : List (String × Node)) (earlier : List (List (String × Node)))

abbrev Members := List (String × Node)

namespace Members

/-- Binds a key, in the place of what it was bound to or else at the end. -/
def put (key : String) (node : Node) : Members → Members
  | [] => [(key, node)]
  | (other, old) :: rest =>
      if other = key then (other, node) :: rest else (other, old) :: put key node rest

/-- Edits the table at the end of a path. Tables that are missing on the way are made, by a dotted
key or by a header as `byKey` says. A path passes through the latest element of an array of tables
and through every table that is not inline; a dotted key moreover adds nothing to a table with a
header. The edit is told whether the table it gets was made by a dotted key. -/
def editAt (byKey : Bool) (edit : Bool → Members → Option Members) :
    List String → Bool → Members → Option Members
  | [], dotted, members => edit dotted members
  | key :: path, _, members =>
      match members.lookup key with
      | none =>
          (editAt byKey edit path byKey []).map fun inner =>
            put key (.table (if byKey then .dotted else .implied) inner) members
      | some (.table origin inner) =>
          if origin = .inline || (byKey && origin = .header) then none
          else (editAt byKey edit path (origin = .dotted) inner).map fun inner =>
            put key (.table origin inner) members
      | some (.tables latest earlier) =>
          (editAt byKey edit path false latest).map fun latest =>
            put key (.tables latest earlier) members
      | some _ => none

/-- Gives a value to a key that has none yet. The last table on the path to the key is one that a
dotted key made. -/
def assign (path : List String) (key : String) (value : Node) (members : Members) :
    Option Members :=
  editAt true (fun dotted inner =>
    if dotted = path.isEmpty then none
    else if (inner.lookup key).isSome then none
    else some (put key value inner)) path false members

/-- Opens the table of a header. A table has one header at most, and none if a dotted key made
it. -/
def openTable (path : List String) (key : String) (members : Members) : Option Members :=
  editAt false (fun _ inner =>
    match inner.lookup key with
    | none => some (put key (.table .header []) inner)
    | some (.table .implied old) => some (put key (.table .header old) inner)
    | some _ => none) path false members

/-- Opens one more element of an array of tables. -/
def openElement (path : List String) (key : String) (members : Members) : Option Members :=
  editAt false (fun _ inner =>
    match inner.lookup key with
    | none => some (put key (.tables [] []) inner)
    | some (.tables latest earlier) => some (put key (.tables [] (latest :: earlier)) inner)
    | some _ => none) path false members

end Members

end SnippetAudit.Toml
