import Mathlib.Data.List.Forall2

/-!
Readings that can fail: when a sequence of them succeeds, and with what.
-/

set_option autoImplicit false

namespace SnippetAudit

theorem bind_eq_ok_iff {ε α β : Type} {first : Except ε α} {next : α → Except ε β} {result : β} :
    (first >>= next) = .ok result ↔ ∃ value, first = .ok value ∧ next value = .ok result := by
  constructor
  · intro read
    cases first with
    | error fault => cases read
    | ok value => exact ⟨value, rfl, read⟩
  · intro read
    obtain ⟨value, rfl, rest⟩ := read
    exact rest

theorem map_eq_ok_iff {ε α β : Type} {read : Except ε α} {change : α → β} {result : β} :
    read.map change = .ok result ↔ ∃ value, read = .ok value ∧ change value = result := by
  cases read <;> simp [Except.map]

theorem eq_ok_of_toOption {ε α : Type} {read : Except ε α} {value : α}
    (isRead : read.toOption = some value) : read = .ok value := by
  cases read with
  | error fault => cases isRead
  | ok other =>
      cases isRead
      rfl

theorem exists_ok {ε α : Type} {read : Except ε α} (succeeds : read.isOk = true) :
    ∃ value, read = .ok value := by
  cases read with
  | error fault => cases succeeds
  | ok value => exact ⟨value, rfl⟩

/-! Lists -/

/-- If every entry is read, so is the list of them. -/
theorem mapM_eq_ok {ε α β γ : Type} {read : α → Except ε β} {source : γ → α} {result : γ → β}
    {entries : List γ} (each : ∀ entry ∈ entries, read (source entry) = .ok (result entry)) :
    (entries.map source).mapM read = .ok (entries.map result) := by
  induction entries with
  | nil => rfl
  | cons entry entries ih =>
      have rest := ih fun other member => each other (List.mem_cons_of_mem entry member)
      rw [List.map_cons, List.mapM_cons, each entry List.mem_cons_self, rest]
      rfl

theorem forall₂_of_mapM {ε α β : Type} {read : α → Except ε β} {entries : List α}
    {results : List β} (isRead : entries.mapM read = .ok results) :
    List.Forall₂ (fun entry result => read entry = .ok result) entries results := by
  induction entries generalizing results with
  | nil =>
      cases isRead
      exact .nil
  | cons entry entries ih =>
      rw [List.mapM_cons] at isRead
      obtain ⟨first, firstRead, others⟩ := bind_eq_ok_iff.mp isRead
      obtain ⟨rest, restRead, same⟩ := bind_eq_ok_iff.mp others
      cases same
      exact .cons firstRead (ih restRead)

theorem exists_mem_of_mapM {ε α β : Type} {read : α → Except ε β} {entries : List α}
    {results : List β} (isRead : entries.mapM read = .ok results) {entry : α}
    (member : entry ∈ entries) : ∃ result ∈ results, read entry = .ok result := by
  have pairs := forall₂_of_mapM isRead
  clear isRead
  induction pairs with
  | nil => cases member
  | cons entryRead _ ih =>
      cases member with
      | head => exact ⟨_, List.mem_cons_self, entryRead⟩
      | tail _ member =>
          obtain ⟨result, inside, resultRead⟩ := ih member
          exact ⟨result, List.mem_cons_of_mem _ inside, resultRead⟩

end SnippetAudit
