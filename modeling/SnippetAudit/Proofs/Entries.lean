import Mathlib.Data.List.Nodup
import SnippetAudit.Entries

/-!
Entries under keys: what is found under a key once an entry is put in, replaced or dropped.

What is found does not depend on the order of the entries, except where they are dropped for their
values: then no key may stand twice.
-/

set_option autoImplicit false

namespace SnippetAudit

variable {κ α : Type} [DecidableEq κ]

theorem lookup_cons_eq_ite (key : κ) (entry : κ × α) (entries : List (κ × α)) :
    (entry :: entries).lookup key = if key = entry.1 then some entry.2 else entries.lookup key := by
  rw [List.lookup_cons]
  by_cases same : key = entry.1
  · rw [if_pos same, beq_iff_eq.mpr same]
  · rw [if_neg same, beq_eq_false_iff_ne.mpr same]

theorem lookup_eq_none_iff_notMem {key : κ} {entries : List (κ × α)} :
    entries.lookup key = none ↔ key ∉ entries.map Prod.fst := by
  simp only [List.lookup_eq_none_iff, bne_iff_ne, List.mem_map, not_exists, not_and]
  exact forall₂_congr fun entry _ => ne_comm

theorem mem_of_lookup_eq_some {key : κ} {value : α} {entries : List (κ × α)}
    (found : entries.lookup key = some value) : (key, value) ∈ entries := by
  obtain ⟨before, after, rfl, _⟩ := List.lookup_eq_some_iff.mp found
  exact List.mem_append_right before List.mem_cons_self

/-- Where no key stands twice, every entry is found under its key. -/
theorem lookup_eq_some_iff_mem {entries : List (κ × α)} (apart : (entries.map Prod.fst).Nodup)
    {key : κ} {value : α} : entries.lookup key = some value ↔ (key, value) ∈ entries := by
  refine ⟨mem_of_lookup_eq_some, fun member => ?_⟩
  cases found : entries.lookup key with
  | none =>
      exact absurd (List.mem_map_of_mem member) (lookup_eq_none_iff_notMem.mp found)
  | some other =>
      have same := List.inj_on_of_nodup_map apart (mem_of_lookup_eq_some found) member rfl
      rw [(Prod.mk.inj same).2]

/-- Of several entries with one key the last is found from behind. -/
theorem lookup_reverse_of_nodup {entries : List (κ × α)} (distinct : (entries.map Prod.fst).Nodup)
    (key : κ) : entries.reverse.lookup key = entries.lookup key := by
  have backwards : (entries.reverse.map Prod.fst).Nodup := by
    rwa [List.map_reverse, List.nodup_reverse]
  ext value
  rw [lookup_eq_some_iff_mem backwards, lookup_eq_some_iff_mem distinct, List.mem_reverse]

theorem lookup_reverse_eq_some {before after : List (κ × α)} {key : κ} {value : α}
    (last : key ∉ after.map Prod.fst) :
    (before ++ (key, value) :: after).reverse.lookup key = some value := by
  rw [List.reverse_append, List.reverse_cons, List.append_assoc, List.singleton_append,
    List.lookup_eq_some_iff]
  refine ⟨after.reverse, before.reverse, rfl, fun entry member => ?_⟩
  rw [bne_iff_ne]
  rintro rfl
  exact last (List.mem_map_of_mem (List.mem_reverse.mp member))

/-! Dropped entries -/

theorem lookup_filter_ne (dropped key : κ) (entries : List (κ × α)) :
    (entries.filter fun entry => entry.1 ≠ dropped).lookup key =
      if key = dropped then none else entries.lookup key := by
  induction entries with
  | nil => simp
  | cons entry entries ih =>
      by_cases same : entry.1 = dropped
      · rw [List.filter_cons_of_neg (by simpa using same), ih, lookup_cons_eq_ite, same]
        by_cases hit : key = dropped <;> simp [hit]
      · rw [List.filter_cons_of_pos (by simpa using same), lookup_cons_eq_ite,
          lookup_cons_eq_ite, ih]
        by_cases hit : key = dropped
        · rw [if_pos hit, if_pos hit, if_neg fun here => same (here.symm.trans hit)]
        · rw [if_neg hit, if_neg hit]

/-- Where no key stands twice, one entry at most is dropped for its key. -/
theorem length_filter_ne {entries : List (κ × α)} (apart : (entries.map Prod.fst).Nodup)
    (dropped : κ) :
    (entries.filter fun entry => entry.1 ≠ dropped).length +
        (if (entries.lookup dropped).isSome then 1 else 0) = entries.length := by
  induction entries with
  | nil => rfl
  | cons entry entries ih =>
      obtain ⟨alone, others⟩ := List.nodup_cons.mp apart
      by_cases same : dropped = entry.1
      · have kept : ∀ other ∈ entries, decide (other.1 ≠ dropped) = true := by
          intro other member
          rw [decide_eq_true_eq, same]
          exact fun hit => alone (hit ▸ List.mem_map_of_mem member)
        rw [List.filter_cons_of_neg (by simpa using same.symm), List.filter_eq_self.mpr kept,
          lookup_cons_eq_ite, if_pos same]
        rfl
      · rw [List.filter_cons_of_pos (by simpa using Ne.symm same), lookup_cons_eq_ite,
          if_neg same, List.length_cons, List.length_cons, ← ih others]
        omega

theorem lookup_filter_snd {entries : List (κ × α)} (apart : (entries.map Prod.fst).Nodup)
    (keep : α → Bool) (key : κ) :
    (entries.filter fun entry => keep entry.2).lookup key = (entries.lookup key).filter keep := by
  have stillApart : ((entries.filter fun entry => keep entry.2).map Prod.fst).Nodup :=
    apart.sublist (List.filter_sublist.map Prod.fst)
  apply Option.ext
  intro value
  rw [lookup_eq_some_iff_mem stillApart, List.mem_filter, Option.filter_eq_some_iff,
    lookup_eq_some_iff_mem apart]

/-! Replaced entries -/

theorem map_fst_replaceEntry (key : κ) (value : α) (entries : List (κ × α)) :
    (replaceEntry key value entries).map Prod.fst = entries.map Prod.fst := by
  induction entries with
  | nil => rfl
  | cons entry entries ih =>
      rw [replaceEntry]
      split
      · next same => rw [List.map_cons, List.map_cons, same]
      · rw [List.map_cons, List.map_cons, ih]

theorem length_replaceEntry (key : κ) (value : α) (entries : List (κ × α)) :
    (replaceEntry key value entries).length = entries.length := by
  rw [← List.length_map Prod.fst, map_fst_replaceEntry, List.length_map]

theorem replaceEntry_eq_self {key : κ} {value : α} {entries : List (κ × α)}
    (found : entries.lookup key = some value) : replaceEntry key value entries = entries := by
  induction entries with
  | nil => rfl
  | cons entry entries ih =>
      rw [lookup_cons_eq_ite] at found
      rw [replaceEntry]
      split_ifs at found ⊢ with same
      · cases found
        rw [same]
      · rw [ih found]

/-- What a value and the one in its place have in common is unchanged by the replacement. -/
theorem map_comp_replaceEntry {β : Type} {view : α → β} {key : κ} {old value : α}
    {entries : List (κ × α)} (found : entries.lookup key = some old)
    (same : view value = view old) :
    (replaceEntry key value entries).map (view ∘ Prod.snd) = entries.map (view ∘ Prod.snd) := by
  induction entries with
  | nil => rfl
  | cons entry entries ih =>
      rw [lookup_cons_eq_ite] at found
      rw [replaceEntry]
      split_ifs at found ⊢ with hit
      · cases found
        simp only [List.map_cons, Function.comp_apply, same]
      · rw [List.map_cons, List.map_cons, ih found]

theorem lookup_replaceEntry {key : κ} {entries : List (κ × α)} (value : α)
    (present : (entries.lookup key).isSome = true) (other : κ) :
    (replaceEntry key value entries).lookup other =
      if other = key then some value else entries.lookup other := by
  induction entries with
  | nil => cases present
  | cons entry entries ih =>
      rw [lookup_cons_eq_ite] at present
      rw [replaceEntry]
      split_ifs at present with same
      · rw [if_pos same, lookup_cons_eq_ite, lookup_cons_eq_ite, ← same]
        split <;> rfl
      · rw [if_neg same, lookup_cons_eq_ite, lookup_cons_eq_ite, ih present]
        by_cases hit : other = key
        · rw [if_neg fun here => same (hit.symm.trans here), if_pos hit, if_pos hit]
        · rw [if_neg hit, if_neg hit]

/-- An entry that is there after a replacement is the one put in or was there before. -/
theorem mem_replaceEntry {key : κ} {value : α} {entries : List (κ × α)} {entry : κ × α}
    (member : entry ∈ replaceEntry key value entries) :
    entry = (key, value) ∨ entry ∈ entries := by
  induction entries with
  | nil => cases member
  | cons first entries ih =>
      rw [replaceEntry] at member
      split at member
      · rcases List.mem_cons.mp member with rfl | rest
        · exact .inl rfl
        · exact .inr (List.mem_cons_of_mem first rest)
      · rcases List.mem_cons.mp member with rfl | rest
        · exact .inr List.mem_cons_self
        · exact (ih rest).imp_right (List.mem_cons_of_mem first)

/-! Inserted entries -/

variable [LT κ] [DecidableLT κ]

theorem lookup_insertEntry (key other : κ) (value : α) (entries : List (κ × α)) :
    (insertEntry key value entries).lookup other =
      if other = key then some value else entries.lookup other := by
  induction entries with
  | nil => exact lookup_cons_eq_ite other (key, value) []
  | cons entry entries ih =>
      unfold insertEntry
      split
      · exact lookup_cons_eq_ite other (key, value) (entry :: entries)
      · split
        · next same =>
            rw [lookup_cons_eq_ite, lookup_cons_eq_ite, ← same]
            split <;> rfl
        · next differs =>
            rw [lookup_cons_eq_ite, lookup_cons_eq_ite, ih]
            by_cases here : other = entry.1
            · rw [if_pos here, if_pos here, if_neg fun same => differs (same.symm.trans here)]
            · rw [if_neg here, if_neg here]

/-- Of several entries with the same key the last one is found. -/
theorem lookup_foldl_insertEntry (key : κ) (items entries : List (κ × α)) :
    (items.foldl (fun entries item => insertEntry item.1 item.2 entries) entries).lookup key =
      (items.reverse.lookup key).or (entries.lookup key) := by
  induction items generalizing entries with
  | nil => rfl
  | cons item items ih =>
      rw [List.foldl_cons, ih, lookup_insertEntry, List.reverse_cons, List.lookup_append,
        Option.or_assoc, lookup_cons_eq_ite]
      split <;> rfl

/-- An entry with a key that follows all others stands behind them. -/
theorem insertEntry_eq_append {key : κ} {entries : List (κ × α)} (value : α)
    (follows : ∀ entry ∈ entries, ¬ key < entry.1 ∧ key ≠ entry.1) :
    insertEntry key value entries = entries ++ [(key, value)] := by
  induction entries with
  | nil => rfl
  | cons entry entries ih =>
      obtain ⟨notBefore, different⟩ := follows entry List.mem_cons_self
      rw [insertEntry, if_neg notBefore, if_neg different,
        ih fun other member => follows other (List.mem_cons_of_mem entry member), List.cons_append]

end SnippetAudit
