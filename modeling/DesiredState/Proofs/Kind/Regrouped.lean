import DesiredState.Proofs.Kind.Outline
import DesiredState.Proofs.Patch.Replacement
import DesiredState.Proofs.Schema.Gathered

/-!
The order of what has none.
Trees of a kind that hold the same strings in their sets, in whatever order and
number and whether as sets or as lists, stand for one object. So they expand
alike, are given back as one tree, and ask for no change of each other.
-/
namespace DesiredState

open Schema

/-- The keys that hold strings in no order, with the keys of the maps that they are in. -/
def Kind.setKeys : Kind → List (List String × String)
  | role | clusterRole => [
      (["rule"], "api_groups"),
      (["rule"], "resources"),
      (["rule"], "resource_names"),
      (["rule"], "non_resource_urls"),
      (["rule"], "verbs")]
  | statefulSet => [(["spec", "volume_claim_template", "spec"], "access_modes")]
  | deployment | daemonSet | cronJob | ingress | roleBinding | clusterRoleBinding => []

theorem Kind.setKeys_outline (k : Kind) :
    (k.outline.filter (·.form = .stringSet)).map (fun r => (r.parents, r.key)) = k.setKeys := by
  cases k <;> decide +kernel

theorem Kind.exists_row_of_mem_setKeys {k : Kind} {place : List String × String}
    (h : place ∈ k.setKeys) :
    ∃ r ∈ k.fields.outline, r.form = .stringSet ∧ (r.parents, r.key) = place := by
  rw [← k.setKeys_outline, ← k.outline_fields] at h
  obtain ⟨r, hr, hplace⟩ := List.mem_map.1 h
  obtain ⟨hmem, hform⟩ := List.mem_filter.1 hr
  exact ⟨r, hmem, of_decide_eq_true hform, hplace⟩

namespace Object

variable {k : Kind} {t u : Tree}

theorem expand_regrouped (ht : t.WellFormed) (hu : u.WellFormed)
    (h : t.Regrouped k.outline u) : expand k t = expand k u := by
  unfold expand
  cases t with
  | map entries =>
    obtain ⟨others, rfl, hentries⟩ := h.eq_map
    rw [expand?, expand?, expandEntries_congr fun fields ho hs =>
      fields.expand_regrouped ho hs [] entries others ⟨ht, hu, hentries⟩]
  | list items =>
    obtain ⟨others, rfl, -⟩ := h.eq_list
    rfl
  | _ =>
    cases h
    rfl

/-- A flattened object has the sets of the tree that it was expanded from. -/
theorem gathers_flatten (ht : t.WellFormed) {o : Object k} (h : expand k t = .ok o)
    {place : List String × String} (hplace : place ∈ k.setKeys) :
    List.Forall₂ Tree.Gathers (o.flatten.valuesAt place.1 place.2)
      (t.valuesAt place.1 place.2) := by
  obtain ⟨entries, rfl, hfields, -⟩ := expand_iff.1 h
  obtain ⟨r, hr, hform, rfl⟩ := Kind.exists_row_of_mem_setKeys hplace
  obtain ⟨-, -, -, hflatten⟩ := settled_of_expand ht h
  rw [hflatten]
  exact k.fields.gathers_canonical k.lawful_fields ht hfields hr hform

/-- Trees that differ only in how their sets are written both fail in the same way, or both expand
to one object. This object is flattened to a tree with the set of the given strings at each of the
keys, in the order of their octets. Neither tree is to be patched to become the other one, and
neither asks for a new object where the other one was seen, whatever changes the trees show. -/
theorem regrouped_alike (ht : t.WellFormed) (hu : u.WellFormed) (h : t.Regrouped k.outline u) :
    (∃ e, expand k t = .error e ∧ expand k u = .error e) ∨
    ∃ o, expand k t = .ok o ∧ expand k u = .ok o ∧
      (∀ place ∈ k.setKeys,
        List.Forall₂ Tree.Gathers (o.flatten.valuesAt place.1 place.2)
          (t.valuesAt place.1 place.2) ∧
        List.Forall₂ Tree.Gathers (o.flatten.valuesAt place.1 place.2)
          (u.valuesAt place.1 place.2)) ∧
      Patch.betweenTrees k t u = .ok [] ∧ Patch.betweenTrees k u t = .ok [] ∧
      ∀ r : Resource, (r.desired = t ∧ r.observed = u ∨ r.desired = u ∧ r.observed = t) →
        Patch.replacedFields k r = .ok [] := by
  have hsame := expand_regrouped ht hu h
  cases hexpand : expand k t with
  | error e => exact Or.inl ⟨e, rfl, hsame ▸ hexpand⟩
  | ok o =>
    have hother : expand k u = .ok o := hsame ▸ hexpand
    obtain ⟨-, hcomplete, -, -⟩ := settled_of_expand ht hexpand
    have hdocument : Patch.document k t = .ok o.encode :=
      Patch.document_eq_ok.2 ⟨o, hexpand, rfl⟩
    have hdocument' : Patch.document k u = .ok o.encode :=
      Patch.document_eq_ok.2 ⟨o, hother, rfl⟩
    have hnone : Patch.between o.encode o.encode k.plan = [] :=
      Patch.between_of_pointer?_eq hcomplete fun _ _ => rfl
    refine Or.inr ⟨o, rfl, hother, fun place hplace => ?_, ?_, ?_, ?_⟩
    · exact ⟨gathers_flatten ht hexpand hplace, gathers_flatten hu hother hplace⟩
    · rw [Patch.betweenTrees_eq_ok hdocument hdocument', hnone]
    · rw [Patch.betweenTrees_eq_ok hdocument' hdocument, hnone]
    · rintro r (⟨rfl, rfl⟩ | ⟨rfl, rfl⟩)
      · exact Patch.replacedFields_of_pointer?_eq hother hexpand fun _ _ => rfl
      · exact Patch.replacedFields_of_pointer?_eq hexpand hother fun _ _ => rfl

/-- The entries of an ordered set whose volumes have the given access modes. -/
def claimEntries (modes : Tree) : List (String × Tree) :=
  [("metadata", .block [("name", .str "db")]),
    ("spec", .block [
      ("selector", .block []),
      ("service_name", .str "db"),
      ("template", .block [("spec", .block [("containers", .list [])])]),
      ("volume_claim_template", .list [.map [
        ("metadata", .block []),
        ("spec", .block [("access_modes", modes)])]])])]

/-- Access modes that are listed once more than they were seen. -/
def relisted : Resource where
  id? := some "default/db"
  desired := .map (claimEntries (Tree.strings ["ReadWriteOnce", "ReadOnlyMany", "ReadWriteOnce"]))
  seen := claimEntries (.set ["ReadOnlyMany", "ReadWriteOnce"])
  sorted := by decide +kernel

theorem regrouped_relisted :
    relisted.desired.Regrouped (Kind.outline .statefulSet) relisted.observed := by
  have hsame : Tree.SameTexts (Tree.strings ["ReadWriteOnce", "ReadOnlyMany", "ReadWriteOnce"])
      (.set ["ReadOnlyMany", "ReadWriteOnce"]) := ⟨_, _, Or.inr rfl, Or.inl rfl, by simp⟩
  have hspec : (Kind.outline .statefulSet).form? "spec" = some .block := by decide +kernel
  have hclaims : ((Kind.outline .statefulSet).below "spec").form? "volume_claim_template" =
      some .maps := by decide +kernel
  have hclaim : (((Kind.outline .statefulSet).below "spec").below "volume_claim_template").form?
      "spec" = some .block := by decide +kernel
  have hmodes : ((((Kind.outline .statefulSet).below "spec").below "volume_claim_template").below
      "spec").form? "access_modes" = some .stringSet := by decide +kernel
  simp [relisted, claimEntries, Resource.observed, Tree.Regrouped, Tree.EntriesRegrouped,
    Tree.ItemsRegrouped, Tree.block, hspec, hclaims, hclaim, hmodes, hsame]

/-- The tree shows a change of a field that asks for a new object, and there is none. -/
theorem regrouped_alike_relisted :
    relisted.desired.WellFormed ∧ relisted.observed.WellFormed ∧
    relisted.desired.Regrouped (Kind.outline .statefulSet) relisted.observed ∧
    relisted.hasChange "spec.0.volume_claim_template" = true ∧
    (∃ o, expand .statefulSet relisted.desired = .ok o ∧
      expand .statefulSet relisted.observed = .ok o ∧ o.flatten = relisted.observed) ∧
    Patch.betweenTrees .statefulSet relisted.observed relisted.desired = .ok [] ∧
    Patch.replacedFields .statefulSet relisted = .ok [] := by
  have ht : relisted.desired.WellFormed := by decide +kernel
  have hu : relisted.observed.WellFormed := by decide +kernel
  have hchange : relisted.hasChange "spec.0.volume_claim_template" = true := by decide +kernel
  obtain ⟨p, hp, hflatten⟩ : ∃ p, expand .statefulSet relisted.observed = .ok p ∧
      p.flatten = relisted.observed := ⟨_, rfl, rfl⟩
  rcases regrouped_alike ht hu regrouped_relisted with
    ⟨e, -, he⟩ | ⟨o, ho, ho', -, -, hback, hreplaced⟩
  · rw [hp] at he
    cases he
  · obtain rfl : p = o := Except.ok.inj (hp.symm.trans ho')
    exact ⟨ht, hu, regrouped_relisted, hchange, ⟨p, ho, hp, hflatten⟩, hback,
      hreplaced relisted (Or.inl ⟨rfl, rfl⟩)⟩

end Object

end DesiredState
