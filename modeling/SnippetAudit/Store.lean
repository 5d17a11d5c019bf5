import SnippetAudit.Entries
import SnippetAudit.Stored.Row

/-!
A store of rows. Ids are given in order from one and never again; rows are kept under their ids, in
the order of these.
-/

set_option autoImplicit false

namespace SnippetAudit

/-- A row to be made. -/
structure NewRow where
  version : Nat
  kind : String
  stored : Stored

/-- A change of a row; what is not given stays. -/
structure RowChange where
  score : Option Score := none
  security : Option (List Finding) := none
  performance : Option (List Finding) := none
  smells : Option (List Finding) := none

namespace RowChange

def isEmpty (change : RowChange) : Bool :=
  change.score.isNone && change.security.isNone && change.performance.isNone &&
    change.smells.isNone

/-- The changed record. New findings are stored as JSON text. -/
def apply (change : RowChange) (stored : Stored) : Stored where
  score := change.score <|> stored.score
  security := (change.security.map Column.ofFindings).getD stored.security
  performance := (change.performance.map Column.ofFindings).getD stored.performance
  smells := (change.smells.map Column.ofFindings).getD stored.smells

end RowChange

/-- Why a store refuses. -/
inductive StoreError where
  | versionRequired
  | kindRequired
  | notFound (id : Nat)
  deriving DecidableEq, Repr

def StoreError.message : StoreError → String
  | .versionRequired => "Validation failed: Snippet version ID is required"
  | .kindRequired => "Validation failed: Analysis type is required"
  | .notFound id => "Code analysis " ++ toString id ++ " not found"

/-- The totals of one kind of row. -/
structure KindStatistics where
  kind : String
  total : Nat
  averageScore : Float
  first : Instant
  last : Instant

/-- A store: rows, each under the key that it is found by, and the id given last. -/
structure Store where
  entries : List (Nat × Row) := []
  lastId : Nat := 0

namespace Store

/-- The rows, in the order of their keys. -/
def rows (store : Store) : List Row :=
  store.entries.map Prod.snd

def size (store : Store) : Nat :=
  store.entries.length

def isEmpty (store : Store) : Bool :=
  store.entries.isEmpty

/-- Makes a row. The version has to be above zero and the kind must not be blank. -/
def create (store : Store) (now : Instant) (new : NewRow) : Except StoreError Row × Store :=
  if new.version = 0 then (.error .versionRequired, store)
  else if Text.isAllWhite new.kind.toList then (.error .kindRequired, store)
  else
    let lastId := store.lastId + 1
    let row : Row :=
      { id := lastId
        version := new.version
        kind := new.kind
        stored := new.stored
        created := now }
    (.ok row, { entries := insertEntry row.id row store.entries, lastId })

/-- The row with this id. -/
def find (store : Store) (id : Nat) : Except StoreError Row :=
  match store.entries.lookup id with
  | some row => .ok row
  | none => .error (.notFound id)

/-- The newer of two rows: the one made later, or of two made at once the one with the higher
id. -/
def newer (left right : Row) : Row :=
  if left.created.isBefore right.created then right
  else if right.created.isBefore left.created then left
  else if left.id < right.id then right
  else left

/-- The newest row of a version. -/
def newestOf? (store : Store) (version : Nat) : Option Row :=
  match store.rows.filter fun row => row.version = version with
  | [] => none
  | row :: rows => some (rows.foldl newer row)

/-- Changes a row. -/
def update (store : Store) (id : Nat) (change : RowChange) : Except StoreError Row × Store :=
  match store.find id with
  | .error error => (.error error, store)
  | .ok row =>
      if change.isEmpty then (.ok row, store)
      else
        let changed := { row with stored := change.apply row.stored }
        (.ok changed, { store with entries := replaceEntry id changed store.entries })

/-- Deletes the row with this id, and tells whether there was one. -/
def delete (store : Store) (id : Nat) : Bool × Store :=
  ((store.entries.lookup id).isSome,
    { store with entries := store.entries.filter fun entry => entry.1 ≠ id })

/-- Deletes the rows of a version, and tells how many there were. -/
def deleteVersion (store : Store) (version : Nat) : Nat × Store :=
  let kept := store.entries.filter fun entry => entry.2.version ≠ version
  (store.entries.length - kept.length, { store with entries := kept })

/-! Rankings -/

/-- A row with its score. -/
def scored (row : Row) : Option (Score × Row) :=
  row.stored.score.map fun score => (score, row)

/-- Whether the first row ranks at least as high: by a greater score in the total order of doubles,
then by a lower id. -/
def ranksFirst (left right : Score × Row) : Bool :=
  let leftKey := left.1.orderKey
  let rightKey := right.1.orderKey
  rightKey < leftKey || (leftKey = rightKey && left.2.id ≤ right.2.id)

/-- The rows with the highest scores, at most `limit` of them. Rows without a score do not take
part. -/
def topScored (store : Store) (limit : Nat) : List Row :=
  (((store.rows.filterMap scored).mergeSort ranksFirst).take limit).map Prod.snd

/-! Statistics -/

/-- The mean of scores, added up in their order; zero if there are none. -/
def meanScore (scores : List Float) : Float :=
  if scores.isEmpty then 0.0
  else scores.foldl (· + ·) (-0.0) / Float.ofNat scores.length

/-- The kinds that occur, ascending. -/
def kinds (store : Store) : List String :=
  Metrics.distinctNames (store.rows.map (·.kind))

/-- The totals of the rows of one kind. -/
def statisticsOf (kind : String) (rows : List Row) : Option KindStatistics :=
  match rows with
  | [] => none
  | row :: rest =>
      let earlier (left right : Instant) := if right.isBefore left then right else left
      let later (left right : Instant) := if left.isBefore right then right else left
      some
        { kind
          total := rows.length
          averageScore := meanScore (rows.filterMap fun row => row.stored.score.map Score.toFloat)
          first := (rest.map (·.created)).foldl earlier row.created
          last := (rest.map (·.created)).foldl later row.created }

/-- The totals of every kind, the most frequent first, and by name where equally frequent. -/
def statistics (store : Store) : List KindStatistics :=
  let totals := store.kinds.filterMap fun kind =>
    statisticsOf kind (store.rows.filter fun row => row.kind = kind)
  totals.mergeSort fun left right => right.total ≤ left.total

end Store

end SnippetAudit
