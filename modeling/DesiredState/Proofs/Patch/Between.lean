import DesiredState.Proofs.Json.Containment
import DesiredState.Proofs.Json.WellFormed
import DesiredState.Proofs.Patch.Outcome

/-!
Patches along a plan.
A plan fits a document if its pointers lie apart and have objects for parents
there. Its patch then succeeds on every document that covers the previous one,
and revises the field of each active rule to the outcome of the rule.
-/
namespace DesiredState

open Json (Revised Revisions resolve?)

/-- The rule gives operations: its field may change in place and is not left to an owner. -/
def Rule.isActive (r : Rule) (desired : Json) : Bool :=
  !(r.isForceNew || Patch.isOwned r desired)

/-- Every pointer names a member of an object, and none of them leads through another one. -/
structure Plan.Fits (plan : Plan) (v : Json) : Prop where
  located : ∀ r ∈ plan, ∃ parents key members,
    Pointer.tokens? r.pointer = some (parents ++ [key]) ∧
      resolve? parents v = some (.obj members)
  apart : plan.Pairwise (fun r s => ∀ a b, Pointer.tokens? r.pointer = some a →
    Pointer.tokens? s.pointer = some b → Apart a b)

/-- A plan that fits a document fits every document that contains it. -/
theorem Plan.Fits.of_containedIn {plan : Plan} {v w : Json} (h : plan.Fits v)
    (hcontained : v.containedIn w = true) : plan.Fits w := by
  refine ⟨?_, h.apart⟩
  intro r hr
  obtain ⟨parents, key, members, htokens, hparent⟩ := h.located r hr
  obtain ⟨parent, hw, hinside⟩ := Json.containedIn_resolve? hcontained hparent
  obtain ⟨others, rfl, -⟩ := Json.eq_obj_of_containedIn hinside
  exact ⟨parents, key, others, htokens, hw⟩

/-- The fields that a patch revises, with the outcomes of their rules. -/
def Plan.revisions (plan : Plan) (previous desired v : Json) : List (List String × Option Json) :=
  (plan.filter (·.isActive desired)).map fun r =>
    ((Pointer.tokens? r.pointer).getD [], r.outcome (previous.pointer? r.pointer)
      (desired.pointer? r.pointer) (v.pointer? r.pointer))

/-- The fields that a patch revises have objects for parents. -/
theorem Plan.Fits.parent_of_mem_revisions {plan : Plan} {v : Json} (hfits : plan.Fits v)
    {previous desired w : Json} {a : List String × Option Json}
    (ha : a ∈ plan.revisions previous desired w) :
    ∃ parent, resolve? a.1.dropLast v = some (.obj parent) := by
  obtain ⟨r, hr, rfl⟩ := List.mem_map.1 ha
  obtain ⟨parents, key, members, htokens, hparent⟩ :=
    hfits.located r (List.mem_of_mem_filter hr)
  refine ⟨members, ?_⟩
  rw [htokens, Option.getD_some, List.dropLast_concat]
  exact hparent

namespace Patch

variable {v : Json}

theorem ruleOperations_of_not_isActive {r : Rule} {desired : Json} (h : r.isActive desired = false)
    (previous : Json) : ruleOperations r previous desired = [] := by
  simp only [Rule.isActive, Bool.not_eq_false'] at h
  simp [ruleOperations, h]

/-- A patch looks at the previous document at the pointers of its plan only. -/
theorem between_congr {plan : Plan} {p q : Json}
    (h : ∀ r ∈ plan, p.pointer? r.pointer = q.pointer? r.pointer) {desired : Json} :
    between p desired plan = between q desired plan := by
  refine List.flatMap_congr fun r hr => ?_
  simp only [ruleOperations, h r hr]

/-- The patch of an active rule leads to a document with its outcome. -/
theorem leads_ruleOperations {r : Rule} {previous desired : Json} {parents : List String}
    {key : String} (hactive : r.isActive desired) (hprevious : previous.WellFormed)
    (h : Pointer.tokens? r.pointer = some (parents ++ [key])) {members : List (String × Json)}
    (hparent : resolve? parents v = some (.obj members))
    (hcovers : r.Covers (previous.pointer? r.pointer) (v.pointer? r.pointer)) :
    ∃ w, Leads (ruleOperations r previous desired) v w ∧
      Revised (parents ++ [key]) (r.outcome (previous.pointer? r.pointer)
        (desired.pointer? r.pointer) (v.pointer? r.pointer)) v w := by
  have hskip : (r.isForceNew || isOwned r desired) = false := by
    simpa [Rule.isActive] using hactive
  rw [Json.pointer?_eq h v] at hcovers ⊢
  simp only [ruleOperations, hskip, Rule.outcome]
  by_cases hwhole : r.comparison = .whole
  · simp only [if_pos hwhole]
    exact leads_wholeOperations h hparent hwhole _ _ hcovers
  · simp only [if_neg hwhole]
    refine leads_keyOperations h hparent hwhole _ _ (fun ps hps => ?_) hcovers
    exact (hprevious.pointer? hps).1

/-- A revision at one rule's pointer leaves the others' fields and their parents in place. -/
theorem fits_of_revised {plan : Plan} {path : List String} {value : Option Json} {w : Json}
    (h : Revised path value v w) (hfits : plan.Fits v)
    (hapart : ∀ r ∈ plan, ∀ tokens, Pointer.tokens? r.pointer = some tokens → Apart path tokens) :
    plan.Fits w ∧ ∀ r ∈ plan, w.pointer? r.pointer = v.pointer? r.pointer := by
  refine ⟨⟨?_, hfits.apart⟩, ?_⟩
  · intro r hr
    obtain ⟨parents, key, members, htokens, hparent⟩ := hfits.located r hr
    obtain ⟨members', hmembers'⟩ := h.parent (hapart r hr _ htokens) hparent
    exact ⟨parents, key, members', htokens, hmembers'⟩
  · intro r hr
    obtain ⟨parents, key, members, htokens, -⟩ := hfits.located r hr
    rw [Json.pointer?_eq htokens, Json.pointer?_eq htokens]
    exact h.frame _ (hapart r hr _ htokens)

/-- The patch along a plan succeeds where the previous document is covered. -/
theorem leads_between {plan : Plan} {previous : Json} (hprevious : previous.WellFormed)
    (desired : Json) (hfits : plan.Fits v)
    (hcovers : ∀ r ∈ plan, r.Covers (previous.pointer? r.pointer) (v.pointer? r.pointer)) :
    ∃ w, Leads (between previous desired plan) v w ∧
      Revisions (plan.revisions previous desired v) v w := by
  induction plan generalizing v with
  | nil => exact ⟨v, leads_nil v, rfl⟩
  | cons r rest ih =>
    obtain ⟨hfirst, hothers⟩ := List.pairwise_cons.1 hfits.apart
    have hrest : Plan.Fits rest v :=
      ⟨fun s hs => hfits.located s (List.mem_cons_of_mem _ hs), hothers⟩
    have hcovered : ∀ s ∈ rest, s.Covers (previous.pointer? s.pointer) (v.pointer? s.pointer) :=
      fun s hs => hcovers s (List.mem_cons_of_mem _ hs)
    unfold between Plan.revisions at ih ⊢
    simp only [List.flatMap_cons, List.filter_cons]
    cases hactive : r.isActive desired with
    | false =>
      rw [ruleOperations_of_not_isActive hactive]
      exact ih hrest hcovered
    | true =>
      obtain ⟨parents, key, members, htokens, hparent⟩ := hfits.located r List.mem_cons_self
      obtain ⟨u, hu, hrevised⟩ := leads_ruleOperations hactive hprevious htokens hparent
        (hcovers r List.mem_cons_self)
      obtain ⟨hfits', hsame⟩ := fits_of_revised hrevised hrest
        (fun s hs tokens hs' => hfirst s hs _ tokens htokens hs')
      obtain ⟨w, hw, hmore⟩ := ih hfits' (fun s hs => by rw [hsame s hs]; exact hcovered s hs)
      refine ⟨w, hu.append hw, ?_⟩
      simp only [if_true, List.map_cons, htokens, Option.getD_some]
      refine ⟨u, hrevised, ?_⟩
      have hmap : (rest.filter (·.isActive desired)).map (fun s =>
          ((Pointer.tokens? s.pointer).getD [], s.outcome (previous.pointer? s.pointer)
            (desired.pointer? s.pointer) (u.pointer? s.pointer))) =
          (rest.filter (·.isActive desired)).map (fun s =>
          ((Pointer.tokens? s.pointer).getD [], s.outcome (previous.pointer? s.pointer)
            (desired.pointer? s.pointer) (v.pointer? s.pointer))) := by
        refine List.map_congr_left fun s hs => ?_
        rw [hsame s (List.mem_of_mem_filter hs)]
      rw [← hmap]
      exact hmore

end Patch

end DesiredState
