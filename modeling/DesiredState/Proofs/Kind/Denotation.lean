import DesiredState.Proofs.Patch.Exhaustive
import DesiredState.Proofs.Schema.Denotation

/-!
The two names of a rule.
In a tree that an object is flattened to, the dotted name of a rule finds what
its pointer finds in the document of the object. So a field has changed between
two such trees exactly if the objects differ at the pointer.
-/
namespace DesiredState.Kind

open Schema

variable {k : Kind} {r : Rule}

/-- The names of a rule denote one field of all objects of a kind. -/
theorem denotes_of_mem_plan (hr : r ∈ k.plan) :
    ∃ place : Place, place.shape.Lawful ∧ ∀ {t : Tree} {o : Object k},
      Object.expand k t = .ok o → o.flatten = t →
      place.Denotes (t.lookup? r.name) (o.encode.pointer? r.pointer) := by
  obtain ⟨parents, key, place, htokens, hplace, hsuits⟩ := k.place_of_mem_plan hr
  obtain ⟨tokens, htokens', hkeys, hname⟩ := k.keyPath?_of_mem_plan hr
  obtain rfl : parents ++ [key] = tokens := Option.some.inj (htokens.symm.trans htokens')
  have hkept : place.presence.isKept = true := (Bool.and_eq_true_iff.1 hsuits).1
  refine ⟨place, k.fields.lawful_of_place? k.lawful_fields hplace, ?_⟩
  rintro _ o ho rfl
  obtain ⟨-, hcomplete, hconfigured, -⟩ := Object.settled_of_expand o.wellFormed_flatten ho
  rw [Tree.lookup?_eq_walk? hname, Json.pointer?_eq htokens]
  exact k.fields.denotes_of_keyPath? k.lawful_fields hplace hkeys hkept hcomplete hconfigured

/-- In trees that expand and are what their objects are flattened to, a rule's name finds something
exactly if its pointer does so in the object's document, and two trees have the same there exactly
if the documents do. So a resource shows a change at the name exactly if the objects differ at the
pointer. -/
theorem hasChange_iff_pointer_ne (hr : r ∈ k.plan) {t u : Tree} {o p : Object k}
    (ht : Object.expand k t = .ok o) (hto : o.flatten = t)
    (hu : Object.expand k u = .ok p) (hup : p.flatten = u) :
    ((t.lookup? r.name).isSome ↔ (o.encode.pointer? r.pointer).isSome) ∧
    (t.lookup? r.name = u.lookup? r.name ↔
      o.encode.pointer? r.pointer = p.encode.pointer? r.pointer) ∧
    ((o.encode.pointer? r.pointer == p.encode.pointer? r.pointer) = true ↔
      o.encode.pointer? r.pointer = p.encode.pointer? r.pointer) ∧
    ∀ s : Resource, s.desired = t → s.observed = u →
      (s.hasChange r.name = true ↔
        o.encode.pointer? r.pointer ≠ p.encode.pointer? r.pointer) := by
  obtain ⟨place, hlawful, hplace⟩ := denotes_of_mem_plan hr
  have hdenotes := hplace ht hto
  have hsame : t.lookup? r.name = u.lookup? r.name ↔
      o.encode.pointer? r.pointer = p.encode.pointer? r.pointer :=
    hdenotes.eq_iff hlawful (hplace hu hup)
  refine ⟨hdenotes.isSome_iff, hsame, hdenotes.beq_iff, ?_⟩
  rintro s rfl rfl
  rw [Resource.hasChange, decide_eq_true_iff]
  exact not_congr hsame

/-- A binding of a reader whose role is given. -/
def bindingEntries (role : String) : List (String × Tree) :=
  [("metadata", .block [("name", .str "readers")]),
    ("role_ref", .block [("api_group", .str "rbac.authorization.k8s.io"), ("kind", .str "Role"),
      ("name", .str role)])]

/-- A binding that should refer to another role. -/
def rebound : Resource where
  id? := some "default/readers"
  desired := .map (bindingEntries "writer")
  seen := bindingEntries "reader"
  sorted := by decide +kernel

theorem hasChange_iff_pointer_ne_rebound :
    Rule.forceNew "role_ref" "/roleRef" ∈ plan .roleBinding ∧
    ∃ o p, Object.expand .roleBinding rebound.desired = .ok o ∧ o.flatten = rebound.desired ∧
      Object.expand .roleBinding rebound.observed = .ok p ∧ p.flatten = rebound.observed ∧
      rebound.hasChange "role_ref" = true ∧
      o.encode.pointer? "/roleRef" ≠ p.encode.pointer? "/roleRef" := by
  have hr : Rule.forceNew "role_ref" "/roleRef" ∈ plan .roleBinding := by decide +kernel
  obtain ⟨o, ho, hflatten⟩ : ∃ o, Object.expand .roleBinding rebound.desired = .ok o ∧
      o.flatten = rebound.desired := ⟨_, rfl, rfl⟩
  obtain ⟨p, hp, hflatten'⟩ : ∃ p, Object.expand .roleBinding rebound.observed = .ok p ∧
      p.flatten = rebound.observed := ⟨_, rfl, rfl⟩
  have hchange : rebound.hasChange "role_ref" = true := by decide +kernel
  obtain ⟨-, -, -, hdiffers⟩ := hasChange_iff_pointer_ne hr ho hflatten hp hflatten'
  exact ⟨hr, o, p, ho, hflatten, hp, hflatten', hchange,
    (hdiffers rebound rfl rfl).1 hchange⟩

end DesiredState.Kind
