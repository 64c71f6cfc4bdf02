import DesiredState.Proofs.Entries
import DesiredState.Tree.Basic

/-!
Well-formed trees.
Every part of a well-formed tree is well formed, and so is a map with one more
entry that is.
-/
namespace DesiredState

namespace Tree

mutual

def decideWellFormed : (t : Tree) → Decidable t.WellFormed
  | str _ | int _ | bool _ => isTrue trivial
  | list items => decideAllWellFormed items
  | set items => inferInstanceAs (Decidable (items.Pairwise (· < ·)))
  | map entries =>
    let _ := decideEntriesWellFormed entries
    inferInstanceAs (Decidable (Entries.Sorted entries ∧ EntriesWellFormed entries))

def decideAllWellFormed : (items : List Tree) → Decidable (AllWellFormed items)
  | [] => isTrue trivial
  | t :: rest =>
    let _ := t.decideWellFormed
    let _ := decideAllWellFormed rest
    inferInstanceAs (Decidable (t.WellFormed ∧ AllWellFormed rest))

def decideEntriesWellFormed :
    (entries : List (String × Tree)) → Decidable (EntriesWellFormed entries)
  | [] => isTrue trivial
  | (_, t) :: rest =>
    let _ := t.decideWellFormed
    let _ := decideEntriesWellFormed rest
    inferInstanceAs (Decidable (t.WellFormed ∧ EntriesWellFormed rest))

end

instance (t : Tree) : Decidable t.WellFormed := t.decideWellFormed

theorem allWellFormed_iff {items : List Tree} :
    AllWellFormed items ↔ ∀ t ∈ items, t.WellFormed := by
  induction items with
  | nil => simp [AllWellFormed]
  | cons first rest ih => simp [AllWellFormed, ih]

theorem entriesWellFormed_iff {entries : List (String × Tree)} :
    EntriesWellFormed entries ↔ ∀ e ∈ entries, e.2.WellFormed := by
  induction entries with
  | nil => simp [EntriesWellFormed]
  | cons e rest ih => simp [EntriesWellFormed, ih]

theorem wellFormed_of_get? {entries : List (String × Tree)} (h : (map entries).WellFormed)
    {key : String} {t : Tree} (ht : Entries.get? entries key = some t) : t.WellFormed :=
  entriesWellFormed_iff.1 h.2 _ (Entries.mem_of_get? ht)

theorem wellFormed_insert? {entries : List (String × Tree)} (h : (map entries).WellFormed)
    (key : String) {value : Option Tree} (hvalue : ∀ t, value = some t → t.WellFormed) :
    (map (Entries.insert? key value entries)).WellFormed := by
  refine ⟨Entries.sorted_insert? key value h.1, entriesWellFormed_iff.2 fun e he => ?_⟩
  cases value with
  | none => exact entriesWellFormed_iff.1 h.2 e he
  | some t =>
    rcases Entries.mem_insert he with rfl | he
    · exact hvalue t rfl
    · exact entriesWellFormed_iff.1 h.2 e he

end Tree

end DesiredState
