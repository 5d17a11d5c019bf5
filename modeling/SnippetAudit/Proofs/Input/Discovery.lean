import SnippetAudit.Input
import SnippetAudit.Proofs.Path.Names

/-!
What a directory stands for.

The files that are listed below a directory are told by the names that lead to them: none of these
is hidden or pruned, and the last has a known extension. The name of the directory itself does not
matter. They come in the order of these names, compared by bytes. What is no regular file is not
listed, and what could not be listed leaves the rest as it is.
-/

set_option autoImplicit false

namespace SnippetAudit

namespace FileTree

/-- `tree.Holds names` says that the names lead from the tree to a regular file. -/
inductive Holds : FileTree → List (List UInt8) → Prop where
  | here : Holds .file []
  | inside {entries : List (List UInt8 × FileTree)} {unlisted : Nat} {label : List UInt8}
      {tree : FileTree} {names : List (List UInt8)} :
      (label, tree) ∈ entries → Holds tree names →
      Holds (.directory entries unlisted) (label :: names)

/-- Trees as file systems have them: the entries of a directory have names, and each its own. -/
inductive Proper : FileTree → Prop where
  | file : Proper .file
  | other : Proper .other
  | directory {entries : List (List UInt8 × FileTree)} {unlisted : Nat} :
      (entries.map Prod.fst).Nodup → (∀ entry ∈ entries, Path.IsName entry.1) →
      (∀ entry ∈ entries, Proper entry.2) → Proper (.directory entries unlisted)

theorem Proper.isName {tree : FileTree} (proper : tree.Proper) {names : List (List UInt8)}
    (holds : tree.Holds names) : ∀ label ∈ names, Path.IsName label := by
  induction holds with
  | here => simp
  | inside member _ ih =>
      cases proper with
      | directory _ named inner =>
          exact List.forall_mem_cons.mpr ⟨named _ member, ih (inner _ member)⟩

end FileTree

namespace Input

/-- The files at a path that are wanted, by the names that lead to them. -/
def Kept (path : List UInt8) (tree : FileTree) (names : List (List UInt8)) : Prop :=
  tree.Holds names ∧ (∀ label ∈ names, isPruned label = false) ∧
    (Language.ofPath? (names.foldl Path.join path)).isSome = true

/-- `Lists path wanted paths` says that the paths are those of the wanted files at the path, each
once and in the order of their names. -/
def Lists (path : List UInt8) (wanted : List (List UInt8) → Prop) (paths : List (List UInt8)) :
    Prop :=
  ∃ listed : List (List (List UInt8)),
    paths = listed.map (fun names => names.foldl Path.join path) ∧
    listed.Pairwise (· < ·) ∧ ∀ names, names ∈ listed ↔ wanted names

/-! Building lists -/

section

variable {path : List UInt8} {wanted other : List (List UInt8) → Prop}
variable {paths more : List (List UInt8)}

theorem Lists.congr (lists : Lists path wanted paths)
    (same : ∀ names, wanted names ↔ other names) : Lists path other paths := by
  obtain ⟨listed, shown, sorted, member⟩ := lists
  exact ⟨listed, shown, sorted, fun names => (member names).trans (same names)⟩

theorem lists_nil (nothing : ∀ names, ¬ wanted names) : Lists path wanted [] :=
  ⟨[], rfl, .nil, fun names => iff_of_false (by simp) (nothing names)⟩

theorem Lists.inside {label : List UInt8} (lists : Lists (Path.join path label) wanted paths) :
    Lists path (fun names => ∃ rest, names = label :: rest ∧ wanted rest) paths := by
  obtain ⟨listed, rfl, sorted, member⟩ := lists
  refine ⟨listed.map (label :: ·), ?_, ?_, ?_⟩
  · rw [List.map_map]
    rfl
  · rw [List.pairwise_map]
    exact sorted.imp fun less => List.cons_lt_cons_iff.mpr (.inr ⟨rfl, less⟩)
  · intro names
    simp only [List.mem_map, member, and_comm, eq_comm]

theorem Lists.append (left : Lists path wanted paths) (right : Lists path other more)
    (before : ∀ names, wanted names → ∀ later, other later → names < later) :
    Lists path (fun names => wanted names ∨ other names) (paths ++ more) := by
  obtain ⟨listed, rfl, sorted, member⟩ := left
  obtain ⟨listed', rfl, sorted', member'⟩ := right
  refine ⟨listed ++ listed', List.map_append.symm, ?_, ?_⟩
  · refine List.pairwise_append.mpr ⟨sorted, sorted', fun names inside later behind => ?_⟩
    exact before names ((member names).mp inside) later ((member' later).mp behind)
  · intro names
    rw [List.mem_append, member, member']

end

/-! Directories -/

/-- What stands for an entry of the directory at a path. -/
def belowEntry (path : List UInt8) (entry : List UInt8 × FileTree) :
    List UInt8 × List (List UInt8) :=
  (entry.1, if isPruned entry.1 then [] else below (Path.join path entry.1) entry.2)

private theorem belowEntries_eq (path : List UInt8) (entries : List (List UInt8 × FileTree)) :
    belowEntries path entries = entries.map (belowEntry path) := by
  induction entries with
  | nil => rw [belowEntries, List.map_nil]
  | cons entry entries ih =>
      obtain ⟨label, tree⟩ := entry
      rw [belowEntries, ih]
      rfl

/-- Sorting what stands for the entries is sorting the entries. -/
theorem below_directory (path : List UInt8) (entries : List (List UInt8 × FileTree))
    (unlisted : Nat) :
    below path (.directory entries unlisted) =
      (entries.mergeSort fun left right => left.1 ≤ right.1).flatMap fun entry =>
        (belowEntry path entry).2 := by
  rw [below, belowEntries_eq,
    ← List.map_mergeSort (r := fun left right : List UInt8 × FileTree => left.1 ≤ right.1)
      fun _ _ _ _ => rfl, List.flatMap_map]

private theorem sorted_entries {entries : List (List UInt8 × FileTree)}
    (distinct : (entries.map Prod.fst).Nodup) :
    (entries.mergeSort fun left right => left.1 ≤ right.1).Pairwise
      fun left right => left.1 < right.1 := by
  have ordered : (entries.mergeSort fun left right => left.1 ≤ right.1).Pairwise
      fun left right => decide (left.1 ≤ right.1) = true :=
    List.pairwise_mergeSort (fun _ _ _ => by simpa using List.le_trans)
      (fun _ _ => by simpa using List.le_total _ _) entries
  have apart : (entries.mergeSort fun left right => left.1 ≤ right.1).Pairwise
      fun left right => left.1 ≠ right.1 := by
    rw [List.Nodup, List.pairwise_map] at distinct
    exact distinct.perm (List.mergeSort_perm entries _).symm fun different => different.symm
  refine (ordered.and apart).imp ?_
  rintro left right ⟨notAfter, different⟩
  exact Std.lt_of_le_of_ne (of_decide_eq_true notAfter) different

theorem kept_directory_iff {path : List UInt8} {entries : List (List UInt8 × FileTree)}
    {unlisted : Nat} {names : List (List UInt8)} :
    Kept path (.directory entries unlisted) names ↔
      ∃ entry ∈ entries, isPruned entry.1 = false ∧
        ∃ rest, names = entry.1 :: rest ∧ Kept (Path.join path entry.1) entry.2 rest := by
  constructor
  · rintro ⟨holds, visible, known⟩
    cases holds with
    | inside member inner =>
        obtain ⟨first, others⟩ := List.forall_mem_cons.mp visible
        exact ⟨_, member, first, _, rfl, inner, others, known⟩
  · rintro ⟨entry, member, first, rest, rfl, inner, others, known⟩
    exact ⟨.inside member inner, List.forall_mem_cons.mpr ⟨first, others⟩, known⟩

private theorem lists_belowEntry (path : List UInt8) (entry : List UInt8 × FileTree)
    (inner : Lists (Path.join path entry.1) (Kept (Path.join path entry.1) entry.2)
      (below (Path.join path entry.1) entry.2)) :
    Lists path
      (fun names => isPruned entry.1 = false ∧
        ∃ rest, names = entry.1 :: rest ∧ Kept (Path.join path entry.1) entry.2 rest)
      (belowEntry path entry).2 := by
  rw [belowEntry]
  cases pruned : isPruned entry.1 with
  | true => exact lists_nil (by simp)
  | false => exact inner.inside.congr (by simp)

private theorem lists_entries (path : List UInt8) {entries : List (List UInt8 × FileTree)}
    (unlisted : Nat) (sorted : entries.Pairwise fun left right => left.1 < right.1)
    (inner : ∀ entry ∈ entries, Lists (Path.join path entry.1)
      (Kept (Path.join path entry.1) entry.2) (below (Path.join path entry.1) entry.2)) :
    Lists path (Kept path (.directory entries unlisted))
      (entries.flatMap fun entry => (belowEntry path entry).2) := by
  induction entries with
  | nil => exact lists_nil (by simp [kept_directory_iff])
  | cons entry entries ih =>
      obtain ⟨before, sorted⟩ := List.pairwise_cons.mp sorted
      obtain ⟨first, others⟩ := List.forall_mem_cons.mp inner
      rw [List.flatMap_cons]
      refine ((lists_belowEntry path entry first).append (ih sorted others) ?_).congr ?_
      · rintro names ⟨_, rest, rfl, _⟩ later kept
        obtain ⟨next, member, _, rest', rfl, _⟩ := kept_directory_iff.mp kept
        exact List.cons_lt_cons_iff.mpr (.inl (before next member))
      · intro names
        simp [kept_directory_iff]

private theorem lists_below {tree : FileTree} (proper : tree.Proper) (path : List UInt8) :
    Lists path (Kept path tree) (below path tree) := by
  induction proper generalizing path with
  | file =>
      rw [below]
      split_ifs with known
      · refine ⟨[[]], rfl, List.pairwise_singleton _ _, fun names => ?_⟩
        constructor
        · intro member
          cases List.mem_singleton.mp member
          exact ⟨.here, by simp, known⟩
        · rintro ⟨⟨⟩, _, _⟩
          simp
      · refine lists_nil ?_
        rintro names ⟨⟨⟩, _, isKnown⟩
        exact known isKnown
  | other =>
      rw [below]
      refine lists_nil ?_
      rintro names ⟨⟨⟩, _⟩
  | @directory entries unlisted distinct _ _ ih =>
      have perm := List.mergeSort_perm entries fun left right => left.1 ≤ right.1
      rw [below_directory]
      refine (lists_entries path unlisted (sorted_entries distinct) fun entry member =>
        ih entry (perm.mem_iff.mp member) _).congr fun names => ?_
      simp only [kept_directory_iff, perm.mem_iff]

/-! Names -/

/-- A name that is left out shows its bytes: what is replaced is in none of these texts. -/
theorem isPruned_eq_false_iff {label : List UInt8} :
    isPruned label = false ↔
      label.head? ≠ some Path.dot ∧ ∀ pruned ∈ prunedNames, label ≠ Path.ofText pruned := by
  have hidden : (Path.shown label).toList.head? = some '.' ↔ label.head? = some Path.dot := by
    rw [Path.shown, String.toList_ofList]
    exact Text.Utf8.head?_decodeLossy_iff (by decide)
  have listed : prunedNames.contains (Path.shown label) = true ↔
      ∃ pruned ∈ prunedNames, label = Path.ofText pruned := by
    rw [List.contains_iff_mem]
    constructor
    · intro member
      have whole : ∀ pruned ∈ prunedNames, Text.Utf8.replacement ∉ pruned.toList := by decide
      refine ⟨_, member, Text.Utf8.eq_encode_of_decodeLossy_eq (whole _ member) ?_⟩
      rw [Path.shown, String.toList_ofList]
    · rintro ⟨pruned, member, rfl⟩
      rwa [Path.shown, Path.ofText, Text.Utf8.decodeLossy_encode, String.ofList_toList]
  rw [isPruned, Bool.or_eq_false_iff, decide_eq_false_iff_not, hidden, ← Bool.not_eq_true, listed]
  simp

private theorem kept_iff {root : List UInt8} {entries : List (List UInt8 × FileTree)}
    {unlisted : Nat}
    (proper : (FileTree.directory entries unlisted).Proper) {names : List (List UInt8)} :
    Kept root (.directory entries unlisted) names ↔
      (FileTree.directory entries unlisted).Holds names ∧
      (∀ label ∈ names, label.head? ≠ some Path.dot ∧
        ∀ pruned ∈ prunedNames, label ≠ Path.ofText pruned) ∧
      ∃ label, names.getLast? = some label ∧ Language.Recognized label := by
  simp only [Kept, isPruned_eq_false_iff]
  refine and_congr_right fun holds => and_congr_right fun _ => ?_
  have named := proper.isName holds
  rcases List.eq_nil_or_concat names with rfl | ⟨above, label, rfl⟩
  · cases holds
  · rw [List.concat_eq_append] at named ⊢
    rw [List.foldl_concat, Language.isSome_ofPath?_join _ (named label (by simp))]
    simp

/-- A directory that is given as an argument stands for the regular files in it, however deep, whose
extension is known and on whose way from there no name starts with a dot or is pruned. Each stands
once, in the order of the names' bytes, and has a language. -/
theorem ofArguments_directory {look : List UInt8 → Option FileTree} {root : List UInt8}
    {entries : List (List UInt8 × FileTree)} {unlisted : Nat} (isPath : root ≠ Path.ofText "-")
    (found : look root = some (.directory entries unlisted))
    (proper : (FileTree.directory entries unlisted).Proper) :
    (∃ listed : List (List (List UInt8)),
      ofArguments look [root] = listed.map (fun names => .file (names.foldl Path.join root)) ∧
      listed.Pairwise (· < ·) ∧
      ∀ names, names ∈ listed ↔
        (FileTree.directory entries unlisted).Holds names ∧
        (∀ label ∈ names, label.head? ≠ some Path.dot ∧
          ∀ pruned ∈ prunedNames, label ≠ Path.ofText pruned) ∧
        ∃ label, names.getLast? = some label ∧ Language.Recognized label) ∧
    ∀ input ∈ ofArguments look [root], ∃ language, input.language? = some language := by
  have inputs : ofArguments look [root] =
      (below root (.directory entries unlisted)).map .file := by
    rw [ofArguments, List.flatMap_singleton, ofArgument, if_neg isPath, found]
  obtain ⟨listed, shown, sorted, member⟩ := lists_below proper root
  rw [inputs, shown, List.map_map]
  refine ⟨⟨listed, rfl, sorted, fun names => ?_⟩, ?_⟩
  · rw [member, kept_iff proper]
  · intro input inside
    obtain ⟨names, isListed, rfl⟩ := List.mem_map.mp inside
    obtain ⟨_, _, known⟩ := (member names).mp isListed
    exact Option.isSome_iff_exists.mp known

/-- The name of the directory would be pruned below another. In it are a hidden directory, a pipe,
and a name that is no text. -/
theorem ofArguments_directory_build :
    ∃ entries, (FileTree.directory entries 1).Proper ∧
      ∃ listed : List (List (List UInt8)),
        ofArguments (fun _ => some (.directory entries 1)) [Path.ofText "build"] =
          listed.map (fun names => .file (names.foldl Path.join (Path.ofText "build"))) ∧
        [Path.ofText "a", Path.ofText "b.PY"] ∈ listed ∧ [0xFF :: Path.ofText ".js"] ∈ listed ∧
        [Path.ofText ".git", Path.ofText "c.js"] ∉ listed ∧ [Path.ofText "d.js"] ∉ listed := by
  have leaf : ∀ label, Path.IsName label →
      (FileTree.directory [(label, .file)] 0).Proper := fun label isName =>
    .directory (by simp) (by simpa using isName) (by simpa using .file)
  have proper : (FileTree.directory
      [(0xFF :: Path.ofText ".js", .file),
        (Path.ofText ".git", .directory [(Path.ofText "c.js", .file)] 0),
        (Path.ofText "a", .directory [(Path.ofText "b.PY", .file)] 0),
        (Path.ofText "d.js", .other)] 1).Proper := by
    refine .directory (by decide) (by decide) ?_
    simp only [List.forall_mem_cons, List.not_mem_nil, false_implies, implies_true, and_true]
    exact ⟨.file, leaf _ (by decide), leaf _ (by decide), .other⟩
  obtain ⟨⟨listed, shown, _, member⟩, _⟩ :=
    @ofArguments_directory (fun _ => some (.directory _ 1)) (Path.ofText "build") _ 1 (by decide)
      rfl proper
  refine ⟨_, proper, listed, shown, ?_, ?_, ?_, ?_⟩
  · rw [member]
    exact ⟨.inside (.tail _ (.tail _ (.head _))) (.inside (.head _) .here), by decide,
      Path.ofText "b.PY", rfl, Path.ofText "b", ['P', 'Y'], by decide, by decide, by decide,
      "python", by decide⟩
  · rw [member]
    exact ⟨.inside (.head _) .here, by decide, 0xFF :: Path.ofText ".js", rfl, [0xFF], ['j', 's'],
      by decide, by decide, by decide, "javascript", by decide⟩
  · rw [member]
    rintro ⟨_, visible, _⟩
    exact (visible (Path.ofText ".git") (by simp)).1 (by decide)
  · have apart : Path.ofText "d.js" ≠ 0xFF :: Path.ofText ".js" := by decide
    rw [member]
    rintro ⟨holds, _⟩
    cases holds with
    | inside isEntry isFile =>
        cases isFile
        simp [apart] at isEntry

end Input

end SnippetAudit
