import DesiredState.Proofs.Kind.Plan

/-!
What a plan does not see.
A store knows an object by its name, what the name is generated from and its
namespace. No rule of a plan points at one of these or near it, so objects that
differ in nothing else look the same to every rule.
-/
namespace DesiredState

open Json (resolve?)

/-- The members by which a store knows an object. -/
def identityPaths : List (List String) :=
  [["metadata", "name"], ["metadata", "generateName"], ["metadata", "namespace"]]

theorem Kind.apart_identityPaths (k : Kind) : ∀ r ∈ k.plan, ∀ path ∈ identityPaths,
    Apart path ((Pointer.tokens? r.pointer).getD []) := by
  unfold Apart
  cases k <;> decide +kernel

namespace Object

open Schema

variable {k : Kind}

/-- Beside the members of the identity, the metadata are what comes after them. -/
theorem get?_encode_metadata (m : Metadata) {key : String}
    (hkey : ["metadata", key] ∉ identityPaths) :
    Entries.get? (Schema.metadata.encode m) key =
      Entries.get? (Fields.encode _ m.2.2.2) key := by
  have hkeys : key ≠ "name" ∧ key ≠ "generateName" ∧ key ≠ "namespace" := by
    simpa [identityPaths] using hkey
  obtain ⟨hname, hgenerate, hns⟩ := hkeys
  refine (Fields.get?_encode_rest _ _ (Ne.symm hname)).trans ?_
  refine (Fields.get?_encode_rest _ _ (Ne.symm hgenerate)).trans ?_
  exact Fields.get?_encode_rest _ _ (Ne.symm hns)

/-- Beside the metadata, a document is what the fields of the body are. -/
theorem get?_encode_body {o o' : Object k} (h : o'.2 = o.2) {key : String}
    (hkey : key ≠ "metadata") :
    Entries.get? (k.fields.encode o') key = Entries.get? (k.fields.encode o) key := by
  refine Fields.get?_typed_congr ?_
  refine (Fields.get?_encode_rest _ _ (Ne.symm hkey)).trans ?_
  refine .trans ?_ (Fields.get?_encode_rest _ _ (Ne.symm hkey)).symm
  rw [h]

/-- Objects that differ in the identity alone have the same document away from it. -/
theorem resolve?_congr {o o' : Object k} (hbody : o'.2 = o.2) (hmetadata : o'.1.2.2.2 = o.1.2.2.2)
    {tokens : List String} (hapart : ∀ path ∈ identityPaths, Apart path tokens) :
    resolve? tokens o'.encode = resolve? tokens o.encode := by
  have hname : Apart ["metadata", "name"] tokens := hapart _ (by decide)
  cases tokens with
  | nil => exact absurd List.nil_prefix hname.2
  | cons first rest =>
    rw [encode, encode, Json.resolve?_cons, Json.resolve?_cons]
    by_cases hfirst : first = "metadata"
    · subst hfirst
      rw [get?_metadata, get?_metadata, Option.bind_some, Option.bind_some]
      cases rest with
      | nil => exact absurd (List.prefix_append ["metadata"] ["name"]) hname.2
      | cons key rest =>
        have hkey : ["metadata", key] ∉ identityPaths := fun hmem =>
          (hapart _ hmem).1 (List.prefix_append ["metadata", key] rest)
        rw [Json.resolve?_cons, Json.resolve?_cons, get?_encode_metadata _ hkey,
          get?_encode_metadata _ hkey, metadata, metadata, hmetadata]
    · rw [get?_encode_body hbody hfirst]

/-- Rules look past the identity of an object. -/
theorem pointer?_congr {o o' : Object k} (hbody : o'.2 = o.2) (hmetadata : o'.1.2.2.2 = o.1.2.2.2)
    {r : Rule} (hr : r ∈ k.plan) :
    o'.encode.pointer? r.pointer = o.encode.pointer? r.pointer := by
  obtain ⟨parents, key, -, htokens, -⟩ := k.place_of_mem_plan hr
  have hapart := k.apart_identityPaths r hr
  rw [htokens, Option.getD_some] at hapart
  rw [Json.pointer?_eq htokens, Json.pointer?_eq htokens]
  exact resolve?_congr hbody hmetadata hapart

theorem pointer?_withNamespace (o : Object k) (ns : String) {r : Rule} (hr : r ∈ k.plan) :
    (o.withNamespace ns).encode.pointer? r.pointer = o.encode.pointer? r.pointer := by
  have hbody : (o.withNamespace ns).2 = o.2 := rfl
  exact pointer?_congr hbody rfl hr

end Object

end DesiredState
