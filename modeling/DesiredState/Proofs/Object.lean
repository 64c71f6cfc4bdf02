import DesiredState.Kind.Object
import DesiredState.Proofs.Schema.Canonical
import DesiredState.Proofs.Schema.Demand

/-!
Objects and the trees they are configured by.
A flattened object can be expanded again exactly if it has a name and nothing
that is expected is missing; what comes back is the object as far as it is
configured. A tree that can be expanded is given back in canonical form.
-/
namespace DesiredState

open Schema

namespace Kind

/-- The members that objects of a kind must have to be expanded again. -/
def demands : Kind → List (List String)
  | deployment | statefulSet | daemonSet => [["spec"], ["spec", "template", "spec"]]
  | cronJob => [["spec"], ["spec", "jobTemplate", "spec"],
      ["spec", "jobTemplate", "spec", "template", "spec"]]
  | ingress => [["spec"], ["spec", "rules", "http", "paths", "backend", "service"],
      ["spec", "defaultBackend", "service"]]
  | role | clusterRole | roleBinding | clusterRoleBinding => []

theorem demands_fields (k : Kind) : k.fields.demands = k.demands := by
  cases k <;> rfl

end Kind

namespace Object

variable {k : Kind}

/-- The metadata give a name or what to generate one from. -/
def Named (o : Object k) : Prop :=
  o.metadata.name?.isSome ∨ o.metadata.generateName?.isSome

def Complete (o : Object k) : Prop := k.fields.Complete o

/-- The object as far as a tree can say it. -/
def configured (o : Object k) : Object k := k.fields.configured o

/-- The tree as far as the fields of a kind take it. -/
def canonical (k : Kind) : Tree → Tree
  | .map entries => .map (k.fields.canonical entries)
  | t => t

theorem named_configured (o : Object k) : o.configured.Named ↔ o.Named := by
  have hname : o.configured.metadata.name? = o.metadata.name?.map (fun s => s) := rfl
  have hgenerate : o.configured.metadata.generateName? =
      o.metadata.generateName?.map (fun s => s) := rfl
  simp only [Named, hname, hgenerate, Option.isSome_map]

theorem requireName_iff (m : Metadata) :
    requireName m = .ok () ↔ m.name?.isSome ∨ m.generateName?.isSome := by
  unfold requireName
  cases m.name? <;> cases m.generateName? <;> simp

theorem expandEntries_iff {entries : List (String × Tree)} {o : Object k} :
    expandEntries k entries = .ok o ↔ k.fields.expand [] entries = .ok o ∧ o.Named := by
  obtain ⟨m, body⟩ := o
  have hmetadata := Fields.expand_cons_iff Kind.metadataField (.block Schema.metadata) .nil []
    entries (m, ())
  have hfields := Fields.expand_cons_iff Kind.metadataField (.block Schema.metadata) k.body []
    entries (m, body)
  have hsame : k.fields.expand [] entries = .ok (m, body) ↔
      (Fields.cons Kind.metadataField (.block Schema.metadata) .nil).expand [] entries =
        .ok (m, ()) ∧ k.body.expand [] entries = .ok body := by
    rw [hmetadata]
    exact hfields.trans (by simp [Fields.expand])
  rw [hsame]
  simp only [expandEntries, Outcome.bind_eq_ok]
  constructor
  · rintro ⟨⟨n, _⟩, hn, _, hname, rest, hrest, heq⟩
    cases heq
    exact ⟨⟨hn, hrest⟩, (requireName_iff _).1 hname⟩
  · rintro ⟨⟨hm, hbody⟩, hname⟩
    exact ⟨(m, ()), hm, (), (requireName_iff m).2 hname, body, hbody, rfl⟩

theorem expand_iff {t : Tree} {o : Object k} :
    expand k t = .ok o ↔
      ∃ entries, t = .map entries ∧ k.fields.expand [] entries = .ok o ∧ o.Named := by
  unfold expand
  rw [Outcome.mapError_eq_ok]
  cases t with
  | map entries =>
    rw [expand?, expandEntries_iff]
    simp
  | _ => simp [expand?, Leaf.mismatch]

theorem expand_flatten_iff (o p : Object k) :
    expand k o.flatten = .ok p ↔ (o.Named ∧ o.Complete) ∧ p = o.configured := by
  have hfields := k.fields.expand_flatten_iff k.lawful_fields [] o o.entries (fun _ _ => rfl) p
  rw [expand_iff]
  constructor
  · rintro ⟨entries, hentries, hp, hname⟩
    cases hentries
    obtain ⟨hcomplete, rfl⟩ := hfields.1 hp
    exact ⟨⟨(named_configured o).1 hname, hcomplete⟩, rfl⟩
  · rintro ⟨⟨hname, hcomplete⟩, rfl⟩
    exact ⟨o.entries, rfl, hfields.2 ⟨hcomplete, rfl⟩, (named_configured o).2 hname⟩

/-- What comes out of the tree of an object that can be expanded is what is configured of it. -/
theorem expand_flatten_configured {o : Object k} (hname : o.Named) (hcomplete : o.Complete) :
    expand k o.flatten = .ok o.configured :=
  (expand_flatten_iff o _).2 ⟨⟨hname, hcomplete⟩, rfl⟩

/-- An expanded object has a name and is complete, configured and written canonically. -/
theorem settled_of_expand {t : Tree} (ht : t.WellFormed) {o : Object k}
    (h : expand k t = .ok o) :
    o.Named ∧ o.Complete ∧ o.configured = o ∧ o.flatten = canonical k t := by
  obtain ⟨entries, rfl, hfields, hname⟩ := expand_iff.1 h
  have hsettled := k.fields.settled_of_expand k.lawful_fields ht hfields
  exact ⟨hname, hsettled.complete, hsettled.configured, congrArg Tree.map hsettled.flatten⟩

/-- An object that comes from a tree is stable: it comes out of its own tree again. -/
theorem expand_flatten_of_expand {t : Tree} (ht : t.WellFormed) {o : Object k}
    (h : expand k t = .ok o) : expand k o.flatten = .ok o := by
  obtain ⟨hname, hcomplete, hconfigured, -⟩ := settled_of_expand ht h
  exact (expand_flatten_iff o o).2 ⟨⟨hname, hcomplete⟩, hconfigured.symm⟩

theorem wellFormed_flatten (o : Object k) : o.flatten.WellFormed :=
  k.fields.wellFormed_flatten o

theorem complete_iff (o : Object k) :
    o.Complete ↔ ∀ path ∈ k.demands, Json.Holds path (k.fields.encode o) := by
  rw [← k.demands_fields]
  exact k.fields.complete_iff k.lawful_fields o

end Object

end DesiredState
