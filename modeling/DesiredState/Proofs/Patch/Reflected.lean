import DesiredState.Proofs.Kind.Plan
import DesiredState.Proofs.Schema.Mirror

/-!
Outcomes on a document and on what was read off it.
A patch is computed from the configured object that a document reads as, and is
applied to the document itself. At the field of a rule both go together: if the
one value reflects the other, then so do the outcomes of the rule on them.
-/
namespace DesiredState

open Schema

namespace Rule

theorem forall₂_mixed {E : Json → Json → Prop} (r : Rule) {ps ds xs : List Json}
    (hxs : List.Forall₂ E xs ps) (hds : List.Forall₂ E ds ds) :
    List.Forall₂ E (r.mixed ps ds xs) (r.mixed ps ds ps) := by
  induction hxs generalizing ds with
  | nil => exact List.Forall₂.nil
  | @cons x p xs ps hx hrest ih =>
    cases hds with
    | nil => exact List.Forall₂.cons hx hrest
    | cons hd hds =>
      rw [mixed, mixed]
      split
      · exact List.Forall₂.cons hd (ih hds)
      · exact List.Forall₂.cons hx (ih hds)

variable {r : Rule} {place : Place} {x p d : Option Json}

theorem suits_iff : r.suits place ↔ place.presence.isKept ∧
    (r.comparison = .whole → place.shape ≠ .leaf .textSet) ∧
    (r.comparison ≠ .whole → place.shape = .leaf .textMap) := by
  unfold suits
  by_cases hwhole : r.comparison = .whole <;> simp [hwhole]

/-- Where the previous value is there, the value that it was read off is too. -/
def Present (previous x : Option Json) : Prop :=
  previous.isSome → ∃ v, x = some v ∧ v.isNull = false

/-- Only a blank value is there for a document that has none. -/
theorem present_of_reflects (h : place.Reflects x p)
    (hfilled : place.presence.isFilled → ∃ v, x = some v ∧ v.isNull = false) :
    Present p x := by
  intro hy
  obtain ⟨presence, shape⟩ := place
  obtain ⟨found, hfound, -, rfl⟩ := h
  have hread : found.isSome → ∃ v, x = some v ∧ v.isNull = false := by
    intro hsome
    obtain ⟨a, rfl⟩ := Option.isSome_iff_exists.1 hsome
    obtain ⟨v, hv, hnull, -⟩ := eq_some_of_readUnlessNull hfound
    exact ⟨v, hv, hnull⟩
  cases presence with
  | required | defaulted => exact hfilled rfl
  | optional | expected =>
    refine hread ?_
    simpa [Place.written, Place.held, Presence.received, Presence.sent, Presence.configured]
      using hy
  | reported | internal => cases hy

theorem mirrors_of_reflects (hkept : place.presence.isKept) (hx : place.Reflects x p)
    (hpresent : Present p x) {q : Json} (hp : p = some q) :
    ∃ v, x = some v ∧ v.isNull = false ∧ place.shape.Mirrors v q := by
  obtain ⟨v, rfl, hnull⟩ := hpresent (by rw [hp]; rfl)
  obtain ⟨z, hz, hmirrors⟩ := (Place.reflects_some hkept hnull).1 hx
  obtain rfl : q = z := Option.some.inj (hp.symm.trans hz)
  exact ⟨v, rfl, hnull, hmirrors⟩

theorem covers_of_reflects (hsuits : r.suits place) (hx : place.Reflects x p)
    (hwellFormed : ∀ v, x = some v → v.WellFormed) (hpresent : Present p x) : r.Covers p x := by
  obtain ⟨hkept, hwhole, hkeyed⟩ := suits_iff.1 hsuits
  constructor
  · intro hp
    obtain ⟨v, hv, -⟩ := hpresent hp
    rw [hv]
    rfl
  · intro hcomparison ps hp
    obtain ⟨v, rfl, -, hmirrors⟩ := mirrors_of_reflects hkept hx hpresent hp
    obtain ⟨xs, rfl⟩ := Shape.eq_arr_of_mirrors hmirrors
    obtain ⟨ys, hys, hall⟩ :=
      (Shape.mirrors_arr (hwhole hcomparison) hmirrors xs (.arr ps)).1 hmirrors
    cases hys
    exact ⟨xs, rfl, hall.length_eq⟩
  · intro hcomparison ps hp
    obtain ⟨v, rfl, -, hmirrors⟩ := mirrors_of_reflects hkept hx hpresent hp
    rw [hkeyed hcomparison] at hmirrors
    obtain ⟨members, rfl⟩ := Shape.eq_obj_of_mirrors_textMap hmirrors
    obtain ⟨hsame, -⟩ := (Shape.mirrors_textMap (hwellFormed _ rfl).1 _).1 hmirrors
    cases hsame
    exact ⟨_, rfl, fun _ hkey => hkey⟩

theorem reflects_replaced (hkept : place.presence.isKept) (hset : place.shape ≠ .leaf .textSet)
    {v q e : Json} (hv : v.isNull = false) (hx : place.Reflects (some v) (some q))
    (hd : place.Reflects (some e) (some e)) :
    place.Reflects (some (r.replaced q e v)) (some (r.replaced q e q)) := by
  cases q with
  | arr ps =>
    obtain ⟨z, hz, hmirrors⟩ := (Place.reflects_some hkept hv).1 hx
    cases hz
    obtain ⟨xs, rfl⟩ := Shape.eq_arr_of_mirrors hmirrors
    cases e with
    | arr ds =>
      simp only [replaced]
      split
      · have harr := Shape.mirrors_arr hset hmirrors
        obtain ⟨ys, hys, hxs⟩ := (harr xs (.arr ps)).1 hmirrors
        cases hys
        obtain ⟨z, hz, hmirrors'⟩ := (Place.reflects_some hkept rfl).1 hd
        cases hz
        obtain ⟨zs, hzs, hds⟩ := (harr ds (.arr ds)).1 hmirrors'
        cases hzs
        refine (Place.reflects_some hkept rfl).2 ⟨_, rfl, (harr _ _).2 ⟨_, rfl, ?_⟩⟩
        exact r.forall₂_mixed hxs hds
      · exact hd
    | _ => exact hd
  | _ => exact hd

theorem reflects_wholeOutcome (hkept : place.presence.isKept)
    (hset : place.shape ≠ .leaf .textSet) (hx : place.Reflects x p) (hd : place.Reflects d d)
    (hpresent : Present p x) :
    place.Reflects (r.wholeOutcome p d x) (r.wholeOutcome p d p) := by
  cases p with
  | none => cases d <;> assumption
  | some q =>
    obtain ⟨v, rfl, hnull⟩ := hpresent rfl
    cases d with
    | none =>
      simp only [wholeOutcome]
      split
      · exact hx
      · exact hd
    | some e =>
      simp only [wholeOutcome]
      split
      · exact reflects_replaced hkept hset hnull hx hd
      · exact hx

/-- Texts stay texts. -/
theorem texts_swept {previous desired members : List (String × Json)}
    (hdesired : Entries.Sorted desired) (hmembers : Entries.Sorted members)
    (hds : ∀ e ∈ desired, ∃ s, e.2 = Json.str s) (hms : ∀ e ∈ members, ∃ s, e.2 = Json.str s) :
    ∀ e ∈ r.swept desired previous (written previous desired members), ∃ s, e.2 = Json.str s := by
  intro e he
  have hsorted := sorted_swept r desired previous (sorted_written previous desired hmembers)
  have hget := Entries.get?_of_mem hsorted he
  rw [get?_swept, get?_written hdesired] at hget
  split at hget
  · cases hget
  · split at hget
    · rename_i v hv
      split at hget
      · exact hms _ (Entries.mem_of_get? hget)
      · cases hget
        exact hds _ (Entries.mem_of_get? hv)
    · exact hms _ (Entries.mem_of_get? hget)

/-- The desired members of a map are texts in the order of their keys. -/
theorem texts_of_reflects (hkept : place.presence.isKept) (hmap : place.shape = .leaf .textMap)
    (hd : place.Reflects d d) (hdwf : ∀ v, d = some v → v.WellFormed) :
    Entries.Sorted ((d.bind Json.members?).getD []) ∧
      ∀ e ∈ (d.bind Json.members?).getD [], ∃ s, e.2 = Json.str s := by
  cases d with
  | none => exact ⟨Entries.sorted_nil, fun e he => absurd he List.not_mem_nil⟩
  | some w =>
    cases w with
    | obj ds =>
      obtain ⟨z, hz, hmirrors⟩ := (Place.reflects_some hkept rfl).1 hd
      rw [hmap] at hmirrors
      have hds : Entries.Sorted ds := (hdwf _ rfl).1
      exact ⟨hds, ((Shape.mirrors_textMap hds _).1 hmirrors).2⟩
    | _ => exact ⟨Entries.sorted_nil, fun e he => absurd he List.not_mem_nil⟩

theorem reflects_keyOutcome (hkept : place.presence.isKept) (hmap : place.shape = .leaf .textMap)
    (hx : place.Reflects x p) (hd : place.Reflects d d)
    (hxwf : ∀ v, x = some v → v.WellFormed) (hdwf : ∀ v, d = some v → v.WellFormed)
    (hpresent : Present p x) :
    place.Reflects (r.keyOutcome p d x) (r.keyOutcome p d p) := by
  unfold keyOutcome
  cases hp : p.bind Json.members? with
  | none =>
    cases hm : d.bind Json.members? with
    | none => exact hx
    | some ds =>
      cases ds with
      | nil => exact hx
      | cons e ds =>
        obtain ⟨w, rfl, hw⟩ := Option.bind_eq_some_iff.1 hm
        obtain rfl := Json.members?_eq_some.1 hw
        exact hd
  | some ps =>
    obtain ⟨q, rfl, hq⟩ := Option.bind_eq_some_iff.1 hp
    obtain rfl := Json.members?_eq_some.1 hq
    obtain ⟨v, rfl, -, hmirrors⟩ := mirrors_of_reflects hkept hx hpresent rfl
    rw [hmap] at hmirrors
    obtain ⟨members, rfl⟩ := Shape.eq_obj_of_mirrors_textMap hmirrors
    have hsorted : Entries.Sorted members := (hxwf _ rfl).1
    obtain ⟨hsame, htexts⟩ := (Shape.mirrors_textMap hsorted _).1 hmirrors
    cases hsame
    -- Both outcomes are the same object of texts.
    obtain ⟨hdsorted, hdtexts⟩ := texts_of_reflects hkept hmap hd hdwf
    refine (Place.reflects_some hkept rfl).2 ⟨_, rfl, ?_⟩
    rw [hmap]
    refine (Shape.mirrors_textMap ?_ _).2 ⟨rfl, ?_⟩
    · exact sorted_swept r _ _ (sorted_written _ _ hsorted)
    · exact texts_swept hdsorted hsorted hdtexts htexts

/-- The outcomes of a rule reflect each other. -/
theorem reflects_outcome (hsuits : r.suits place) (hx : place.Reflects x p)
    (hd : place.Reflects d d) (hxwf : ∀ v, x = some v → v.WellFormed)
    (hdwf : ∀ v, d = some v → v.WellFormed) (hpresent : Present p x) :
    place.Reflects (r.outcome p d x) (r.outcome p d p) := by
  obtain ⟨hkept, hwhole, hkeyed⟩ := suits_iff.1 hsuits
  unfold outcome
  by_cases hcomparison : r.comparison = .whole
  · simp only [if_pos hcomparison]
    exact reflects_wholeOutcome hkept (hwhole hcomparison) hx hd hpresent
  · simp only [if_neg hcomparison]
    exact reflects_keyOutcome hkept (hkeyed hcomparison) hx hd hxwf hdwf hpresent

end Rule

end DesiredState
