import DesiredState.Proofs.Patch.Between
import DesiredState.Proofs.Patch.Meets
import DesiredState.Proofs.Schema.Retained

/-!
What is left to patch after a merge.
Merging brings every desired value into place but takes nothing away. So a rule
that compares key by key is left with the keys it would remove, and a rule that
compares a field as a whole is left with nothing if all of the previous value is
retained in the desired one or if the store fills the field in.
-/
namespace DesiredState

open Schema

namespace Rule

/-- The removals that the rule asks for. -/
def removals (r : Rule) (previous desired : Option Json) : List Patch.Operation :=
  Patch.droppedKeys r ((previous.bind Json.members?).getD [])
    ((desired.bind Json.members?).getD [])

/-- Whether the step to the desired value drops nothing. -/
def retains (r : Rule) (previous desired : Option Json) : Bool :=
  if r.comparison = .whole then
    r.computed ||
      match previous, desired with
      | none, _ => true
      | some _, none => false
      | some v, some change => v.retainedIn change
  else (r.removals previous desired).isEmpty

theorem retains_whole {r : Rule} (hcomparison : r.comparison = .whole)
    (hcomputed : r.computed = false) {previous desired : Option Json} :
    r.retains previous desired = true ↔
      ∀ v, previous = some v → ∃ change, desired = some change ∧ v.retainedIn change = true := by
  unfold retains
  rw [if_pos hcomparison, hcomputed, Bool.false_or]
  cases previous <;> cases desired <;> simp

end Rule

/-- Whether no field that may change in place has anything dropped. -/
def Plan.retains (plan : Plan) (previous desired : Json) : Bool :=
  plan.all fun r => !r.isActive desired ||
    r.retains (previous.pointer? r.pointer) (desired.pointer? r.pointer)

namespace Patch

variable {r : Rule} {place : Place} {x y z : Option Json}

theorem droppedKeys_texts {desired : List (String × Json)} {changes : List (String × String)}
    (h : ∀ e ∈ changes, Entries.contains desired e.1 = true) (texts : List (String × String)) :
    droppedKeys r (Entries.map Json.str
        (changes.foldl (fun d e => Entries.insert e.1 e.2 d) texts)) desired =
      droppedKeys r (Entries.map Json.str texts) desired := by
  induction changes generalizing texts with
  | nil => rfl
  | cons e rest ih =>
    obtain ⟨hfirst, hrest⟩ := List.forall_mem_cons.1 h
    rw [List.foldl_cons, ih hrest, Entries.map_insert, droppedKeys_insert hfirst]

/-- A map of texts that others were merged into. -/
theorem keyOperations_merged (a b : TextMap) :
    keyOperations r (some (Leaf.encode .textMap (a.merged b))) (some (Leaf.encode .textMap b)) =
      r.removals (some (Leaf.encode .textMap a)) (some (Leaf.encode .textMap b)) := by
  have hchanged : changedKeys r (Entries.map Json.str (a.merged b).entries)
      (Entries.map Json.str b.entries) = [] := by
    refine List.filterMap_eq_nil_iff.2 fun e he => ?_
    have hget := Entries.get?_of_mem (Entries.sorted_map Json.str b.sorted) he
    obtain ⟨s, hs, heq⟩ := Option.map_eq_some_iff.1 ((Entries.get?_map _ _ _).symm.trans hget)
    have hmerged : Entries.get? (Entries.map Json.str (a.merged b).entries) e.1 = some e.2 := by
      rw [Entries.get?_map, TextMap.get?_merged, hs, ← heq]
      rfl
    simp [hmerged]
  have hkept : ∀ e ∈ b.entries, Entries.contains (Entries.map Json.str b.entries) e.1 = true := by
    intro e he
    rw [Entries.contains, Entries.get?_map, Entries.get?_of_mem b.sorted he]
    rfl
  calc keyOperations r _ _
    _ = changedKeys r (Entries.map Json.str (a.merged b).entries)
          (Entries.map Json.str b.entries) ++
        droppedKeys r (Entries.map Json.str (a.merged b).entries)
          (Entries.map Json.str b.entries) := rfl
    _ = droppedKeys r (Entries.map Json.str (a.merged b).entries)
          (Entries.map Json.str b.entries) := by rw [hchanged, List.nil_append]
    _ = _ := droppedKeys_texts hkept a.entries

theorem texts_of_merges (hmap : place.shape = .leaf .textMap) (h : place.Merges x y z) :
    ∃ a b : Option TextMap, x = a.map (Leaf.encode .textMap) ∧
      y = b.map (Leaf.encode .textMap) ∧
      z = (a.merge TextMap.merged b).map (Leaf.encode .textMap) := by
  obtain ⟨presence, shape⟩ := place
  obtain rfl : shape = .leaf .textMap := hmap
  obtain ⟨b, rfl, -, hfirst⟩ := h
  cases hkept : presence.isKept with
  | false =>
    have hnone : ∀ v, Place.written ⟨presence, .leaf .textMap⟩ v = none :=
      Place.written_of_not_isKept hkept
    refine ⟨none, none, ?_, hnone b, ?_⟩
    · rcases hfirst with ⟨rfl, -⟩ | ⟨a, rfl, -⟩
      · rfl
      · exact hnone a
    · rcases hfirst with ⟨-, rfl⟩ | ⟨a, -, rfl⟩ <;> exact hnone _
  | true =>
    have hwritten : ∀ v, Place.written ⟨presence, .leaf .textMap⟩ v =
        (presence.sent v).map (Leaf.encode .textMap) :=
      Place.written_kept hkept
    rcases hfirst with ⟨rfl, rfl⟩ | ⟨a, rfl, rfl⟩
    · refine ⟨none, presence.sent b, rfl, hwritten b, (hwritten b).trans ?_⟩
      cases presence.sent b <;> rfl
    · refine ⟨presence.sent a, presence.sent b, hwritten a, hwritten b, (hwritten _).trans ?_⟩
      exact congrArg _ (presence.sent_merged TextMap.merged a b)

/-- Of a map of texts the removals are left, as they were before the merge. -/
theorem keyOperations_of_merges (hmap : place.shape = .leaf .textMap) (h : place.Merges x y z) :
    keyOperations r z y = r.removals x y := by
  obtain ⟨a, b, rfl, rfl, rfl⟩ := texts_of_merges hmap h
  cases b with
  | none => cases a <;> rfl
  | some b =>
    cases a with
    | none =>
      have hmerged : TextMap.empty.merged b = b := (Shape.leaf .textMap).merged_blank b
      have hleft := keyOperations_merged (r := r) TextMap.empty b
      rw [hmerged] at hleft
      exact hleft
    | some a => exact keyOperations_merged a b

theorem wholeOperations_of_merges (hcomparison : r.comparison = .whole)
    (hs : place.shape.Lawful) (hplain : r.computed = true → place.shape.isPlain = true)
    (h : place.Merges x y z) (hretains : r.retains x y = true) : wholeOperations r z y = [] := by
  cases hcomputed : r.computed with
  | true =>
    refine wholeOperations_of_contains (p := z) hcomputed ?_
    cases y with
    | none => rfl
    | some c =>
      obtain ⟨v, rfl, hcontained⟩ := h.contains hs (hplain hcomputed) rfl
      refine ⟨v, rfl, hcontained, fun w hw _ => ?_⟩
      exact Option.some.inj hw
  | false =>
    rw [h.eq_of_retained hs ((Rule.retains_whole hcomparison hcomputed).1 hretains)]
    exact wholeOperations_of_same hcomputed BEq.rfl

end Patch

end DesiredState
