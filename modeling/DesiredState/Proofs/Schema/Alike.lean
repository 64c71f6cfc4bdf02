import DesiredState.Proofs.Schema.Outline
import Mathlib.Data.List.Forall2

/-!
Trees that are read alike.
Blocks are read map by map, and of anything that is no list of maps only the
form is told. So two trees that differ inside their maps only give the same
blocks, or the same fault, if what is read in the maps is the same.
-/
namespace DesiredState

namespace Tree

variable (R : List (String × Tree) → List (String × Tree) → Prop)

/-- Two maps whose entries are related, or two trees of one form that are no maps. -/
def MapAlike (t u : Tree) : Prop :=
  (∃ a b, t = map a ∧ u = map b ∧ R a b) ∨ (t.form = u.form ∧ t.form ≠ .map)

/-- Two lists whose maps are related, or two trees of one form that are no lists. -/
def MapsAlike (t u : Tree) : Prop :=
  (∃ a b, t = list a ∧ u = list b ∧ List.Forall₂ (MapAlike R) a b) ∨
    (t.form = u.form ∧ t.form ≠ .list)

end Tree

namespace Schema

open DesiredState.Tree (MapAlike MapsAlike)

theorem Leaf.mismatch_congr {α : Type} (path : Path) (wanted : Tree.Form) {t u : Tree}
    (h : t.form = u.form) : (mismatch path wanted t : Checked α) = mismatch path wanted u := by
  rw [mismatch, mismatch, h]

theorem readBlock_of_form_ne {t : Tree} (h : t.form ≠ .list) (path : Path) :
    readBlock path t = Leaf.mismatch path .list t := by
  cases t with
  | list items => exact absurd rfl h
  | _ => rfl

theorem readBlock_single {t : Tree} (h : t.form ≠ .map) (path : Path) :
    readBlock path (.list [t]) = Leaf.mismatch (path ++ ["0"]) .map t := by
  cases t with
  | map entries => exact absurd rfl h
  | _ => rfl

theorem readBlocks_of_form_ne {t : Tree} (h : t.form ≠ .list) (path : Path) :
    readBlocks path t = Leaf.mismatch path .list t := by
  cases t with
  | list items => exact absurd rfl h
  | _ => rfl

theorem readItems_of_form_ne {t : Tree} (h : t.form ≠ .map) (path : Path) (i : Nat)
    (rest : List Tree) :
    readItems path i (t :: rest) = Leaf.mismatch (path ++ [i.repr]) .map t := by
  cases t with
  | map entries => exact absurd rfl h
  | _ => rfl

section Reading

variable {R : List (String × Tree) → List (String × Tree) → Prop} {α : Type}
  {read : Path → List (String × Tree) → Checked α}
  (hread : ∀ path a b, R a b → read path a = read path b)

include hread

theorem expandBlock_alike {t u : Tree} (h : t.MapsAlike R u) (path : Path) :
    expandBlock read path t = expandBlock read path u := by
  unfold expandBlock
  rcases h with ⟨a, b, rfl, rfl, hmaps⟩ | ⟨hform, hne⟩
  · cases hmaps with
    | nil => rfl
    | cons hfirst hrest =>
      cases hrest with
      | nil =>
        rcases hfirst with ⟨a, b, rfl, rfl, hentries⟩ | ⟨hform, hne⟩
        · exact congrArg (Except.map some) (hread (path ++ ["0"]) a b hentries)
        · rw [readBlock_single hne, readBlock_single (hform ▸ hne), Leaf.mismatch_congr _ _ hform]
      | cons _ hmore => simp [readBlock, hmore.length_eq]
  · rw [readBlock_of_form_ne hne, readBlock_of_form_ne (hform ▸ hne), Leaf.mismatch_congr _ _ hform]

omit hread in
theorem readItems_alike {items others : List Tree} (h : List.Forall₂ (MapAlike R) items others)
    (path : Path) (i : Nat) :
    (∃ e, readItems path i items = .error e ∧ readItems path i others = .error e) ∨
      ∃ a b, readItems path i items = .ok a ∧ readItems path i others = .ok b ∧
        List.Forall₂ (fun x y => x.1 = y.1 ∧ R x.2 y.2) a b := by
  induction h generalizing i with
  | nil => exact Or.inr ⟨[], [], rfl, rfl, .nil⟩
  | cons hfirst _ ih =>
    rcases hfirst with ⟨entries, given, rfl, rfl, hentries⟩ | ⟨hform, hne⟩
    · rw [readItems, readItems]
      rcases ih (i + 1) with ⟨e, hleft, hright⟩ | ⟨a, b, hleft, hright, hmaps⟩
      · rw [hleft, hright]
        exact Or.inl ⟨e, rfl, rfl⟩
      · refine Or.inr ⟨(path ++ [i.repr], entries) :: a, (path ++ [i.repr], given) :: b, ?_, ?_,
          .cons ⟨rfl, hentries⟩ hmaps⟩
        · rw [hleft]
          rfl
        · rw [hright]
          rfl
    · rw [readItems_of_form_ne hne, readItems_of_form_ne (hform ▸ hne),
        Leaf.mismatch_congr _ _ hform]
      exact Or.inl ⟨_, rfl, rfl⟩

theorem expandEach_alike {a b : List (Path × List (String × Tree))}
    (h : List.Forall₂ (fun x y => x.1 = y.1 ∧ R x.2 y.2) a b) :
    expandEach read a = expandEach read b := by
  induction h with
  | nil => rfl
  | @cons x y a b hfirst _ ih =>
    obtain ⟨path, entries⟩ := x
    obtain ⟨_, others⟩ := y
    obtain ⟨rfl, hentries⟩ := hfirst
    rw [expandEach, expandEach, hread path entries others hentries, ih]

end Reading

theorem expandBlocks_alike {R : List (String × Tree) → List (String × Tree) → Prop}
    {fields : Fields} (hread : ∀ path a b, R a b → fields.expand path a = fields.expand path b)
    {t u : Tree} (h : t.MapsAlike R u) (path : Path) :
    (Shape.blocks fields).expand path t = (Shape.blocks fields).expand path u := by
  rw [Shape.expand, Shape.expand]
  rcases h with ⟨items, others, rfl, rfl, hmaps⟩ | ⟨hform, hne⟩
  · rw [readBlocks, readBlocks]
    rcases readItems_alike hmaps path 0 with ⟨e, hleft, hright⟩ | ⟨a, b, hleft, hright, hlocated⟩
    · rw [hleft, hright]
    · rw [hleft, hright, Outcome.ok_bind, Outcome.ok_bind, expandEach_alike hread hlocated]
  · rw [readBlocks_of_form_ne hne, readBlocks_of_form_ne (hform ▸ hne),
      Leaf.mismatch_congr _ _ hform]

end Schema

end DesiredState
