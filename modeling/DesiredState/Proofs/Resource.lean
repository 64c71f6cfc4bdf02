import DesiredState.Proofs.Entries
import DesiredState.Resource

/-!
What is kept of a resource.
Refreshing replaces all that was seen by the given entries and leaves the
identity and the desired tree alone.
-/
namespace DesiredState.Resource

theorem foldl_forget (keys : List String) (r : Resource) :
    (keys.foldl forget r).seen = keys.foldl (fun seen key => Entries.erase key seen) r.seen ∧
      (keys.foldl forget r).id? = r.id? ∧ (keys.foldl forget r).desired = r.desired := by
  induction keys generalizing r with
  | nil => exact ⟨rfl, rfl, rfl⟩
  | cons key rest ih => exact ih (r.forget key)

theorem foldl_observe (entries : List (String × Tree)) (r : Resource) :
    (entries.foldl (fun r e => r.observe e.1 e.2) r).seen =
        entries.foldl (fun seen e => Entries.insert e.1 e.2 seen) r.seen ∧
      (entries.foldl (fun r e => r.observe e.1 e.2) r).id? = r.id? ∧
      (entries.foldl (fun r e => r.observe e.1 e.2) r).desired = r.desired := by
  induction entries generalizing r with
  | nil => exact ⟨rfl, rfl, rfl⟩
  | cons e rest ih => exact ih (r.observe e.1 e.2)

theorem get?_foldl_erase (keys : List String) (seen : List (String × Tree)) (key : String) :
    Entries.get? (keys.foldl (fun seen key => Entries.erase key seen) seen) key =
      if key ∈ keys then none else Entries.get? seen key := by
  induction keys generalizing seen with
  | nil => simp
  | cons first rest ih =>
    rw [List.foldl_cons, ih, Entries.get?_erase]
    by_cases hfirst : first = key
    · simp [hfirst]
    · simp [hfirst, Ne.symm hfirst]

theorem mem_staleKeys {r : Resource} {entries : List (String × Tree)} {key : String} :
    key ∈ r.staleKeys entries ↔
      (∃ t, Entries.get? r.seen key = some t) ∧ Entries.get? entries key = none := by
  unfold staleKeys
  rw [List.mem_filter]
  have hstale : (!Entries.contains entries key) = true ↔ Entries.get? entries key = none := by
    simp [Entries.contains]
  rw [hstale]
  refine and_congr_left fun _ => ?_
  constructor
  · intro hmem
    obtain ⟨⟨_, t⟩, he, rfl⟩ := List.mem_map.1 hmem
    exact ⟨t, Entries.get?_of_mem r.sorted he⟩
  · rintro ⟨t, ht⟩
    exact List.mem_map.2 ⟨_, Entries.mem_of_get? ht, rfl⟩

/-- Nothing of what was seen before is kept. -/
theorem seen_refresh (r : Resource) {entries : List (String × Tree)} (h : Entries.Sorted entries) :
    (r.refresh entries).seen = entries := by
  refine Entries.ext_of_sorted (r.refresh entries).sorted h fun key => ?_
  unfold refresh
  rw [(foldl_observe _ _).1, Entries.get?_foldl_insert _ _ h, (foldl_forget _ _).1,
    get?_foldl_erase]
  cases hget : Entries.get? entries key with
  | some t => rfl
  | none =>
    rw [Option.none_or]
    split
    · rfl
    · rename_i hfresh
      cases hseen : Entries.get? r.seen key with
      | none => rfl
      | some t => exact absurd (mem_staleKeys.2 ⟨⟨t, hseen⟩, hget⟩) hfresh

theorem id?_refresh (r : Resource) (entries : List (String × Tree)) :
    (r.refresh entries).id? = r.id? :=
  (foldl_observe _ _).2.1.trans (foldl_forget _ _).2.1

theorem desired_refresh (r : Resource) (entries : List (String × Tree)) :
    (r.refresh entries).desired = r.desired :=
  (foldl_observe _ _).2.2.trans (foldl_forget _ _).2.2

end DesiredState.Resource
