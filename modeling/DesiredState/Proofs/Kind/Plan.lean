import DesiredState.Proofs.Object
import DesiredState.Proofs.Patch.Between
import DesiredState.Proofs.Schema.Place

/-!
The plans of the kinds.
Every rule points at a field of its kind, inside blocks that every complete
object has. The fields compared by keys hold texts, and no field compared as a
whole holds a set. No pointer leads through another one.
-/
namespace DesiredState

open Schema

/-- The metadata of an object are a member of its document. -/
theorem Object.get?_metadata {k : Kind} (o : Object k) :
    Entries.get? (k.fields.encode o) "metadata" =
      some (.obj (Schema.metadata.encode o.metadata)) := by
  obtain ⟨⟨-, hmember, -⟩, -, -⟩ := k.lawful_fields.2.2
  rw [Fields.get?_encode_typed k.apiVersion k.name _ _ (by decide) (by decide)]
  exact Fields.get?_encode_cons hmember _ _

/-- The metadata of an object are an entry of its tree. -/
theorem Object.get?_entries_metadata {k : Kind} (o : Object k) :
    Entries.get? o.entries "metadata" = some (.block (Schema.metadata.flatten o.metadata)) := by
  obtain ⟨⟨hkey, -, -⟩, -, -⟩ := k.lawful_fields.2.2
  exact Fields.get?_flatten_cons hkey _ _

/-- The comparison of a rule suits the field that it points at. -/
def Rule.suits (r : Rule) (place : Place) : Bool :=
  place.presence.isKept &&
    if r.comparison = .whole then place.shape ≠ .leaf .textSet else place.shape = .leaf .textMap

namespace Kind

/-- A rule points at a field that suits it. -/
def isPlaced (k : Kind) (r : Rule) : Bool :=
  match Pointer.tokens? r.pointer with
  | some tokens =>
    match k.fields.place? tokens with
    | some place => r.suits place
    | none => false
  | none => false

theorem isPlaced_of_mem_plan (k : Kind) : k.plan.all k.isPlaced = true := by
  cases k <;> decide +kernel

theorem place_of_mem_plan (k : Kind) {r : Rule} (hr : r ∈ k.plan) :
    ∃ parents key place, Pointer.tokens? r.pointer = some (parents ++ [key]) ∧
      k.fields.place? (parents ++ [key]) = some place ∧ r.suits place := by
  have hplaced := List.all_eq_true.1 k.isPlaced_of_mem_plan r hr
  unfold isPlaced at hplaced
  split at hplaced
  · rename_i tokens htokens
    split at hplaced
    · rename_i place hplace
      rcases List.eq_nil_or_concat' tokens with rfl | ⟨parents, key, rfl⟩
      · rw [Fields.place?_nil] at hplace
        cases hplace
      · exact ⟨parents, key, place, htokens, hplace, hplaced⟩
    · cases hplaced
  · cases hplaced

theorem apart_plan (k : Kind) :
    (k.plan.map (fun r => (Pointer.tokens? r.pointer).getD [])).Pairwise Apart := by
  unfold Apart
  cases k <;> decide +kernel

/-- The plan of a kind fits the document of every complete object. -/
theorem fits_encode (k : Kind) (o : Object k) (h : o.Complete) :
    k.plan.Fits o.encode := by
  constructor
  · intro r hr
    obtain ⟨parents, key, place, htokens, hplace, -⟩ := k.place_of_mem_plan hr
    obtain ⟨parent, held, hparent, -⟩ := k.fields.resolve?_encode k.lawful_fields hplace o h
    rw [List.dropLast_concat] at hparent
    exact ⟨parents, key, parent, htokens, hparent⟩
  · refine (List.pairwise_map.1 k.apart_plan).imp fun {r s} hapart a b ha hb => ?_
    rwa [ha, hb] at hapart

end Kind

end DesiredState
