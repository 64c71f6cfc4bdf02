import DesiredState.Text.Split

/-!
Identities of remote objects and their text form.
A namespaced object is `namespace/name` and a cluster-wide one is a bare name.
Reading fails closed: each part must be there, and no further slash.
-/
namespace DesiredState

inductive Scope where
  | namespaced
  | cluster
deriving DecidableEq, Repr

/-- The namespace is absent exactly for cluster-wide objects. -/
structure ObjectId where
  ns? : Option String
  name : String
deriving DecidableEq, Repr

namespace ObjectId

def scope (id : ObjectId) : Scope :=
  if id.ns?.isSome then .namespaced else .cluster

def text (id : ObjectId) : String :=
  match id.ns? with
  | some ns => ns ++ "/" ++ id.name
  | none => id.name

def ofText? (scope : Scope) (text : String) : Option ObjectId :=
  match scope, Text.split '/' text with
  | .namespaced, [ns, name] =>
    if ns.isEmpty || name.isEmpty then none else some ⟨some ns, name⟩
  | .cluster, [name] => if name.isEmpty then none else some ⟨none, name⟩
  | _, _ => none

/-- The text of an identity is not read as another one. -/
theorem ofText?_text {id other : ObjectId} (h : ofText? id.scope id.text = some other) :
    other = id := by
  obtain ⟨ns?, name⟩ := id
  cases ns? with
  | none =>
    change ofText? .cluster name = some other at h
    unfold ofText? at h
    split at h
    · contradiction
    · rename_i hpieces
      split at h
      · cases h
      · rw [Text.eq_of_split_eq_singleton hpieces]
        exact (Option.some.inj h).symm
    · cases h
  | some ns =>
    change ofText? .namespaced (ns ++ "/" ++ name) = some other at h
    unfold ofText? at h
    split at h
    · rename_i hpieces
      split at h
      · cases h
      · obtain ⟨hns, hname⟩ := Text.eq_of_split_eq_pair hpieces
        rw [hns, hname]
        exact (Option.some.inj h).symm
    · contradiction
    · cases h

/-- An identity that was read has the text that it was read from. -/
theorem text_of_ofText? {scope : Scope} {text : String} {id : ObjectId}
    (h : ofText? scope text = some id) : id.text = text := by
  have hjoin := Text.intercalate_split '/' text
  unfold ofText? at h
  split at h
  · rename_i hpieces
    rw [hpieces] at hjoin
    split at h
    · cases h
    · cases h
      refine String.toList_inj.1 ?_
      rw [← hjoin]
      simp [ObjectId.text, List.intercalate]
  · rename_i hpieces
    rw [hpieces] at hjoin
    split at h
    · cases h
    · cases h
      refine String.toList_inj.1 ?_
      rw [← hjoin]
      simp [ObjectId.text, List.intercalate]
  · cases h

end ObjectId

end DesiredState
