import DesiredState.Proofs.Schema.Document
import DesiredState.Proofs.Schema.Projection

/-!
What a document must have for its value to be complete.
A schema demands members by their paths: each expected field, and the service
of each backend. A path goes through the elements of arrays, and demands
nothing where a member on the way is missing.
-/
namespace DesiredState

namespace Json

/-- The objects that a value is or has as elements. -/
def objects : Json → List (List (String × Json))
  | obj members => [members]
  | arr items => items.filterMap members?
  | _ => []

/-- Every object that a path leads to has the last member of the path. -/
def Holds : List String → List (String × Json) → Prop
  | [], _ => True
  | [key], members => (Entries.get? members key).isSome
  | key :: token :: path, members =>
    ∀ v, Entries.get? members key = some v → ∀ inner ∈ v.objects, Holds (token :: path) inner

theorem holds_congr {a b : List (String × Json)} {key : String} {path : List String}
    (h : Entries.get? a key = Entries.get? b key) :
    Holds (key :: path) a ↔ Holds (key :: path) b := by
  cases path <;> simp only [Holds, h]

end Json

namespace Schema

open Json (Holds)

/-- The paths that a field demands, given those that its shape does. -/
def Presence.demands (p : Presence) (member : String) (inner : List (List String)) :
    List (List String) :=
  match p with
  | .expected => [member] :: inner.map (member :: ·)
  | .optional | .required | .defaulted _ => inner.map (member :: ·)
  | .reported | .internal => []

mutual

def Shape.demands : Shape → List (List String)
  | .leaf _ => []
  | .block fields | .blocks fields => fields.demands
  | .backend => [["service"]]

def Fields.demands : Fields → List (List String)
  | .nil => []
  | .typed _ _ rest => rest.demands
  | .cons field shape rest => field.presence.demands field.member shape.demands ++ rest.demands

end

theorem Presence.eq_cons_of_mem_demands {p : Presence} {member : String}
    {inner : List (List String)} {path : List String} (h : path ∈ p.demands member inner) :
    ∃ rest, path = member :: rest := by
  cases p with
  | expected =>
    rcases List.mem_cons.1 h with rfl | h
    · exact ⟨[], rfl⟩
    · obtain ⟨rest, -, rfl⟩ := List.mem_map.1 h
      exact ⟨rest, rfl⟩
  | optional | required | defaulted =>
    obtain ⟨rest, -, rfl⟩ := List.mem_map.1 h
    exact ⟨rest, rfl⟩
  | reported | internal => cases h

theorem Fields.eq_cons_of_mem_demands (fields : Fields) {path : List String}
    (h : path ∈ fields.demands) : ∃ key rest, path = key :: rest ∧ key ∈ fields.members := by
  match fields with
  | .nil => cases h
  | .typed _ _ rest =>
    obtain ⟨key, tokens, rfl, hkey⟩ := rest.eq_cons_of_mem_demands h
    exact ⟨key, tokens, rfl, List.mem_cons_of_mem _ (List.mem_cons_of_mem _ hkey)⟩
  | .cons field shape rest =>
    rcases List.mem_append.1 h with h | h
    · obtain ⟨tokens, rfl⟩ := Presence.eq_cons_of_mem_demands h
      exact ⟨field.member, tokens, rfl, List.mem_cons_self⟩
    · obtain ⟨key, tokens, rfl, hkey⟩ := rest.eq_cons_of_mem_demands h
      exact ⟨key, tokens, rfl, List.mem_cons_of_mem _ hkey⟩

theorem Shape.eq_cons_of_mem_demands {s : Shape} {path : List String} (h : path ∈ s.demands) :
    ∃ key rest, path = key :: rest := by
  match s with
  | .leaf _ => cases h
  | .block fields | .blocks fields =>
    obtain ⟨key, rest, rfl, -⟩ := fields.eq_cons_of_mem_demands h
    exact ⟨key, rest, rfl⟩
  | .backend =>
    obtain rfl := List.mem_singleton.1 h
    exact ⟨"service", [], rfl⟩

/-- Every object in the document of a value has what the shape demands. -/
def Shape.Met (s : Shape) (v : s.Value) : Prop :=
  ∀ path ∈ s.demands, ∀ inner ∈ (s.encode v).objects, Holds path inner

/-- What a field demands is there if the value is complete. -/
theorem Presence.complete_iff {p : Presence} {member : String} {s : Shape}
    (hs : ∀ x, s.Complete x ↔ s.Met x) (v : p.Held s.Value) {members : List (String × Json)}
    (hget : Entries.get? members member = (p.sent v).map s.encode) :
    p.Complete s.Complete v ↔ ∀ path ∈ p.demands member s.demands, Holds path members := by
  have hinner : (∀ path ∈ s.demands.map (member :: ·), Holds path members) ↔
      ∀ x, p.sent v = some x → s.Complete x := by
    rw [List.forall_mem_map]
    constructor
    · intro h x hx
      refine (hs x).2 fun path hpath inner hmem => ?_
      obtain ⟨key, rest, rfl⟩ := Shape.eq_cons_of_mem_demands hpath
      exact h _ hpath _ (by rw [hget, hx]; rfl) inner hmem
    · intro h path hpath
      obtain ⟨key, rest, rfl⟩ := Shape.eq_cons_of_mem_demands hpath
      intro w hw inner hmem
      rw [hget] at hw
      obtain ⟨x, hx, rfl⟩ := Option.map_eq_some_iff.1 hw
      exact (hs x).1 (h x hx) _ hpath inner hmem
  cases p with
  | optional => exact hinner.symm
  | required | defaulted =>
    refine Iff.trans ?_ hinner.symm
    simp [Complete, sent]
  | expected =>
    rw [demands, List.forall_mem_cons, hinner, Holds, hget, Option.isSome_map]
    cases v <;> simp [Complete, sent]
  | reported | internal => simp [Complete, demands]

theorem Backend.met_iff (b : Backend) : b.service?.isSome ↔ Shape.backend.Met b := by
  unfold Shape.Met
  have hget : Entries.get? (Entries.insert? "service" (b.service?.map Service.encode) [])
      "service" = b.service?.map Service.encode := by
    simp [Entries.get?_insert?]
  simp [Shape.demands, Shape.encode, encode, Json.objects, Holds, hget]

mutual

theorem Shape.complete_iff : (s : Shape) → s.Lawful → (v : s.Value) → (s.Complete v ↔ s.Met v)
  | .leaf _, _, _ => by simp [Shape.Complete, Shape.Met, Shape.demands]
  | .block fields, hs, v => by
    simp [Shape.Complete, Shape.Met, Shape.demands, Shape.encode, Json.objects,
      fields.complete_iff hs v]
  | .blocks fields, hs, items => by
    have hobjects : (Shape.encode (.blocks fields) items).objects = items.map fields.encode := by
      simp [Shape.encode, Json.objects, List.filterMap_map, Function.comp_def, Json.members?]
    unfold Shape.Met
    rw [hobjects]
    constructor
    · intro h path hpath inner hinner
      obtain ⟨v, hv, rfl⟩ := List.mem_map.1 hinner
      exact (fields.complete_iff hs v).1 (h v hv) path hpath
    · intro h v hv
      refine (fields.complete_iff hs v).2 fun path hpath => ?_
      exact h path hpath _ (List.mem_map_of_mem hv)
  | .backend, _, b => b.met_iff

/-- A value is complete if its document has what the schema demands. -/
theorem Fields.complete_iff : (fields : Fields) → fields.Lawful → (v : fields.Value) →
    (fields.Complete v ↔ ∀ path ∈ fields.demands, Holds path (fields.encode v))
  | .nil, _, _ => by simp [Fields.Complete, Fields.demands]
  | .typed apiVersion kind rest, hs, v => by
    rw [Fields.Complete, rest.complete_iff hs.2.2 v]
    refine forall₂_congr fun path hpath => ?_
    obtain ⟨key, tokens, rfl, hkey⟩ := rest.eq_cons_of_mem_demands hpath
    exact Json.holds_congr (Fields.get?_encode_typed_of_mem hs hkey v).symm
  | .cons field shape rest, hs, (v, vs) => by
    obtain ⟨⟨-, hmember, -⟩, hshape, hrest⟩ := hs
    have hget := Fields.get?_encode_cons hmember v vs
    have hfirst := Presence.complete_iff (shape.complete_iff hshape) v hget
    have hothers : rest.Complete vs ↔ ∀ path ∈ rest.demands,
        Holds path ((Fields.cons field shape rest).encode (v, vs)) := by
      rw [rest.complete_iff hrest vs]
      refine forall₂_congr fun path hpath => ?_
      obtain ⟨key, tokens, rfl, hkey⟩ := rest.eq_cons_of_mem_demands hpath
      exact Json.holds_congr
        (Fields.get?_encode_rest v vs (fun heq => hmember (heq ▸ hkey))).symm
    rw [Fields.Complete, hfirst, hothers, Fields.demands, List.forall_mem_append]

end

end Schema

end DesiredState
