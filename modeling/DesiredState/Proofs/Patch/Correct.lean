import DesiredState.Patch.Configuration
import DesiredState.Proofs.Kind.Plan
import DesiredState.Proofs.Patch.Between
import DesiredState.Proofs.Patch.Meets

/-!
Patches are correct.
The patch between two documents succeeds on the first one; every field that may
change in place and has no owner then is what its rule asks for, and nothing
else has changed. The plans of all kinds fit the documents of all trees that
can be expanded.
-/
namespace DesiredState.Patch

open Json (Revisions resolve?)

theorem Leads.toSteps {patch : List Operation} {v w : Json} (h : Leads patch v w) :
    ∃ steps, toSteps patch = .ok steps ∧ applyAll steps v = some w := by
  obtain ⟨steps, hsteps, happly⟩ := h
  exact ⟨steps, toSteps_eq_ok.2 hsteps, happly⟩

theorem isActive_iff {r : Rule} {desired : Json} :
    r.isActive desired = true ↔ r.policy = .mutable ∧ isOwned r desired = false := by
  cases hpolicy : r.policy <;> simp [Rule.isActive, Rule.isForceNew, hpolicy]

/-- The fields of the active rules in a plan that fits lie apart. -/
theorem pairwise_revisions {plan : Plan} {v : Json} (hfits : plan.Fits v)
    (previous desired w : Json) :
    (plan.revisions previous desired w).Pairwise (fun a b => Apart a.1 b.1) := by
  refine List.pairwise_map.2 ((hfits.apart.imp_of_mem ?_).filter _)
  intro r s hr hs hapart
  obtain ⟨parents, key, _, hr, -⟩ := hfits.located r hr
  obtain ⟨parents', key', _, hs, -⟩ := hfits.located s hs
  have hboth := hapart _ _ hr hs
  simpa [hr, hs] using hboth

/-- The field of an active rule is as the revisions have it. -/
theorem pointer?_of_revisions {plan : Plan} {previous desired v x u w : Json} (hfits : plan.Fits v)
    (h : Revisions (plan.revisions previous desired x) u w) {r : Rule}
    (hr : r ∈ plan) (hactive : r.isActive desired) :
    w.pointer? r.pointer = r.outcome (previous.pointer? r.pointer) (desired.pointer? r.pointer)
      (x.pointer? r.pointer) := by
  obtain ⟨parents, key, _, htokens, -⟩ := hfits.located r hr
  have hmem : (parents ++ [key], r.outcome (previous.pointer? r.pointer)
      (desired.pointer? r.pointer) (x.pointer? r.pointer)) ∈
        plan.revisions previous desired x := by
    refine List.mem_map.2 ⟨r, List.mem_filter.2 ⟨hr, hactive⟩, ?_⟩
    rw [htokens, Option.getD_some]
  rw [Json.pointer?_eq htokens w]
  exact h.slot (pairwise_revisions hfits previous desired x) hmem

theorem document_eq_ok {k : Kind} {t : Tree} {v : Json} :
    document k t = .ok v ↔ ∃ o, Object.expand k t = .ok o ∧ o.encode = v := by
  simp [document, Outcome.bind_eq_ok]

/-- The document of a tree that can be expanded is well formed and fits its kind's plan. -/
theorem fits_document {k : Kind} {t : Tree} (ht : t.WellFormed) {v : Json}
    (h : document k t = .ok v) : v.WellFormed ∧ k.plan.Fits v := by
  obtain ⟨o, ho, rfl⟩ := document_eq_ok.1 h
  obtain ⟨-, hcomplete, -, -⟩ := Object.settled_of_expand ht ho
  exact ⟨k.fields.wellFormed_encode o, k.fits_encode o hcomplete⟩

/-- Applying the patch between two documents to the first one succeeds and does what the rules ask
for. -/
theorem applyAll_between {plan : Plan} {previous desired : Json}
    (hprevious : previous.WellFormed) (hdesired : desired.WellFormed)
    (hfits : plan.Fits previous) :
    (∃ steps w, toSteps (between previous desired plan) = .ok steps ∧
      applyAll steps previous = some w ∧
      (∀ r ∈ plan, r.policy = .mutable → isOwned r desired = false →
        r.Meets (previous.pointer? r.pointer) (desired.pointer? r.pointer)
          (w.pointer? r.pointer)) ∧
      (∀ path, (∀ r ∈ plan, r.policy = .mutable → isOwned r desired = false →
          ∀ tokens, Pointer.tokens? r.pointer = some tokens → Apart tokens path) →
        resolve? path w = resolve? path previous)) ∧
    ∀ k t v, t.WellFormed → document k t = .ok v → v.WellFormed ∧ k.plan.Fits v := by
  refine ⟨?_, fun k t v ht hv => fits_document ht hv⟩
  obtain ⟨w, hleads, hrevisions⟩ := leads_between hprevious desired hfits
    (fun r _ => r.covers_self _)
  obtain ⟨steps, hsteps, happly⟩ := hleads.toSteps
  refine ⟨steps, w, hsteps, happly, ?_, ?_⟩
  · intro r hr hmutable howner
    have hactive : r.isActive desired := isActive_iff.2 ⟨hmutable, howner⟩
    rw [pointer?_of_revisions hfits hrevisions hr hactive]
    exact Rule.meets_outcome (fun v hv => hprevious.pointer? hv) (fun v hv => hdesired.pointer? hv)
  · intro path hpath
    refine hrevisions.frame fun place hplace => ?_
    obtain ⟨r, hr, rfl⟩ := List.mem_map.1 hplace
    obtain ⟨hr, hactive⟩ := List.mem_filter.1 hr
    obtain ⟨hmutable, howner⟩ := isActive_iff.1 hactive
    obtain ⟨parents, key, _, htokens, -⟩ := hfits.located r hr
    simpa [htokens] using hpath r hr hmutable howner _ htokens

/-- A document with one label. -/
def labelled (key value : String) : Json :=
  .obj [("metadata", .obj [("labels", .obj [(key, .str value)])])]

theorem wellFormed_labelled (key value : String) : (labelled key value).WellFormed := by
  simp [labelled, Json.WellFormed, Json.MembersWellFormed, Entries.Sorted]

theorem fits_labelled (key value : String) : Plan.Fits [Kind.labelRule] (labelled key value) := by
  refine ⟨?_, by simp⟩
  intro r hr
  obtain rfl : r = Kind.labelRule := by simpa using hr
  exact ⟨["metadata"], "labels", _, by decide +kernel, rfl⟩

theorem applyAll_between_labelled :
    Plan.Fits [Kind.labelRule] (labelled "a" "1") ∧
    ∃ steps w, toSteps (between (labelled "a" "1") (labelled "b" "2") [Kind.labelRule]) =
        .ok steps ∧
      applyAll steps (labelled "a" "1") = some w ∧
      Kind.labelRule.Meets (some (.obj [("a", .str "1")])) (some (.obj [("b", .str "2")]))
        (w.pointer? "/metadata/labels") := by
  obtain ⟨⟨steps, w, hsteps, happly, hmeets, -⟩, -⟩ :=
    applyAll_between (wellFormed_labelled "a" "1") (wellFormed_labelled "b" "2")
      (fits_labelled "a" "1")
  exact ⟨fits_labelled "a" "1", steps, w, hsteps, happly, hmeets _ (by simp) rfl rfl⟩

end DesiredState.Patch
