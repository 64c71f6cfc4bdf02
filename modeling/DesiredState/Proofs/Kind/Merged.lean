import DesiredState.Proofs.Kind.Address
import DesiredState.Proofs.Kind.Live
import DesiredState.Proofs.Kind.SharedMap
import DesiredState.Proofs.Patch.Retained

/-!
Live documents that a whole object was merged into.
The document reads as the live object and the merged one put together. Of the
patch to the merged object there are left the labels and annotations that it
drops, and nothing if it drops none and retains every other field.
-/
namespace DesiredState

open Schema
open Json (Revised resolve?)

/-- The removals of the keys that are dropped from a shared map between two documents. -/
def SharedMap.removals (m : SharedMap) (previous desired : Json) : List Patch.Operation :=
  m.rule.removals (previous.pointer? m.rule.pointer) (desired.pointer? m.rule.pointer)

/-- A field that the store fills in has no backend outside arrays. -/
theorem Kind.isPlain_of_computed (k : Kind) {r : Rule} (hr : r ∈ k.plan) (hcomputed : r.computed)
    {tokens : List String} {place : Place} (htokens : Pointer.tokens? r.pointer = some tokens)
    (hplace : k.fields.place? tokens = some place) : place.shape.isPlain = true := by
  have hall : k.plan.all (fun r => !r.computed ||
      (k.fields.place? ((Pointer.tokens? r.pointer).getD [])).all (·.shape.isPlain)) = true := by
    cases k <;> decide +kernel
  have hrule := List.all_eq_true.1 hall r hr
  rw [hcomputed, htokens, Option.getD_some, hplace] at hrule
  exact hrule

/-- A field that changes in place and that no one else fills in or owns. -/
def Rule.IsSteady (r : Rule) : Prop := r.policy = .mutable ∧ r.computed = false ∧ r.owner? = none

instance (r : Rule) : Decidable r.IsSteady := inferInstanceAs (Decidable (_ ∧ _))

theorem Rule.IsSteady.isActive {r : Rule} (h : r.IsSteady) (desired : Json) :
    r.isActive desired = true :=
  Patch.isActive_iff.2 ⟨h.1, by rw [Patch.isOwned, h.2.2]⟩

namespace Kind

/-- The paths to the steady fields of the body. -/
def steadyPaths (k : Kind) : List (List String) :=
  (k.bodyPlan.filter Rule.IsSteady).filterMap (fun r => Pointer.tokens? r.pointer)

theorem mem_steadyPaths {k : Kind} {path : List String} :
    path ∈ k.steadyPaths ↔
      ∃ r ∈ k.bodyPlan, r.IsSteady ∧ Pointer.tokens? r.pointer = some path := by
  simp [steadyPaths, and_assoc]

/-- What may be left out of an object demands nothing or is a steady field. -/
theorem suppliedBy_steadyPaths (k : Kind) : k.fields.suppliedBy k.steadyPaths = true := by
  cases k <;> decide +kernel

end Kind

namespace Object

variable {k : Kind} {o d : Object k} {v : Json}

/-- The object with whatever the other one has in its place. -/
def merged (o d : Object k) : Object k := k.fields.merged o d

theorem decode?_merge (hv : v.WellFormed) (h : decode? k v = some o) (d : Object k) :
    decode? k (v.merge d.encode) = some (o.merged d) := by
  obtain ⟨members, hmembers, hfields⟩ := Option.bind_eq_some_iff.1 h
  obtain rfl := Json.members?_eq_some.1 hmembers
  rw [encode, Json.merge]
  exact k.fields.decode_merge k.lawful_fields hv.2 hfields d

theorem named_merged (h : d.Named) (o : Object k) : (o.merged d).Named := by
  have hname : (o.merged d).metadata.name? =
      o.metadata.name?.merge (fun _ s => s) d.metadata.name? := rfl
  have hgenerate : (o.merged d).metadata.generateName? =
      o.metadata.generateName?.merge (fun _ s => s) d.metadata.generateName? := rfl
  unfold Named at h ⊢
  rw [hname, hgenerate, merge_eq_or, merge_eq_or, Option.isSome_or, Option.isSome_or]
  rcases h with h | h
  · simp [h]
  · simp [h]

/-- A document that agrees with the merged object wherever a rule looks. -/
def Guides (desired : Json) (d : Object k) : Prop :=
  ∀ r ∈ k.plan, desired.pointer? r.pointer = d.encode.pointer? r.pointer

/-- The values at the pointer of a rule. -/
theorem merges_pointer (o : Object k) (hd : d.Complete) (hconfigured : d.configured = d)
    {desired : Json} (hguides : Guides desired d) {r : Rule} (hr : r ∈ k.plan)
    {tokens : List String} {place : Place} (htokens : Pointer.tokens? r.pointer = some tokens)
    (hplace : k.fields.place? tokens = some place) :
    place.Merges (o.configured.encode.pointer? r.pointer) (desired.pointer? r.pointer)
      ((o.merged d).configured.encode.pointer? r.pointer) := by
  have hmerges := k.fields.merges_of_place? k.lawful_fields hplace o hd hconfigured
  have hsame : resolve? tokens d.configured.encode = desired.pointer? r.pointer := by
    rw [hconfigured, hguides r hr, Json.pointer?_eq htokens]
  rw [← hsame, Json.pointer?_eq htokens, Json.pointer?_eq htokens]
  exact hmerges

/-- Labels and annotations that are dropped stay to be removed, and no others do. -/
theorem ruleOperations_merged (o : Object k) (hd : d.Complete)
    (hconfigured : d.configured = d) {desired : Json} (hguides : Guides desired d)
    (m : SharedMap) :
    Patch.ruleOperations m.rule (o.merged d).configured.encode desired =
      m.removals o.configured.encode desired := by
  have hmerges := merges_pointer o hd hconfigured hguides (m.rule_mem_plan k) m.tokens?_rule
    (m.place?_path k)
  have hskip : (m.rule.isForceNew || Patch.isOwned m.rule desired) = false := by
    simpa [Rule.isActive] using m.isActive_rule desired
  rw [Patch.ruleOperations, hskip]
  simp only [Bool.false_eq_true, if_false, if_neg m.comparison_rule_ne_whole]
  exact Patch.keyOperations_of_merges rfl hmerges

/-- Nothing is left of the patch to a body that drops nothing. -/
theorem between_bodyPlan_merged (hd : d.Complete)
    (hconfigured : d.configured = d) {desired : Json} (hguides : Guides desired d)
    (hretains : k.bodyPlan.retains o.configured.encode desired = true) :
    Patch.between (o.merged d).configured.encode desired k.bodyPlan = [] := by
  refine List.flatMap_eq_nil_iff.2 fun r hr => ?_
  cases hactive : r.isActive desired with
  | false => exact Patch.ruleOperations_of_not_isActive hactive _
  | true =>
    have hplan : r ∈ k.plan := Kind.mem_plan_iff.2 (Or.inr hr)
    have hwhole := k.comparison_of_mem_bodyPlan hr
    obtain ⟨parents, key, place, htokens, hplace, -⟩ := k.place_of_mem_plan hplan
    have hs : place.shape.Lawful := k.fields.lawful_of_place? k.lawful_fields hplace
    have hmerges := merges_pointer o hd hconfigured hguides hplan htokens hplace
    have hrule : r.retains (o.configured.encode.pointer? r.pointer)
        (desired.pointer? r.pointer) = true := by
      simpa [hactive] using List.all_eq_true.1 hretains r hr
    have hnone := Patch.wholeOperations_of_merges hwhole hs
      (fun hcomputed => k.isPlain_of_computed hplan hcomputed htokens hplace) hmerges hrule
    rw [Patch.ruleOperations]
    split
    · rfl
    · simpa only [if_pos hwhole] using hnone

/-- If the body drops nothing then only removals of labels and annotations are left of the patch. -/
theorem between_merged (hd : d.Complete) (hconfigured : d.configured = d) {desired : Json}
    (hguides : Guides desired d)
    (hretains : k.bodyPlan.retains o.configured.encode desired = true) :
    Patch.between (o.merged d).configured.encode desired k.plan =
      SharedMap.labels.removals o.configured.encode desired ++
        SharedMap.annotations.removals o.configured.encode desired := by
  calc Patch.between (o.merged d).configured.encode desired k.plan
    _ = Patch.ruleOperations SharedMap.labels.rule (o.merged d).configured.encode desired ++
        (Patch.ruleOperations SharedMap.annotations.rule (o.merged d).configured.encode desired ++
          Patch.between (o.merged d).configured.encode desired k.bodyPlan) := rfl
    _ = SharedMap.labels.removals o.configured.encode desired ++
        SharedMap.annotations.removals o.configured.encode desired := by
      rw [ruleOperations_merged o hd hconfigured hguides,
        ruleOperations_merged o hd hconfigured hguides,
        between_bodyPlan_merged hd hconfigured hguides hretains, List.append_nil]

/-- A plan that drops nothing drops no label, no annotation and nothing of the body. -/
theorem retains_plan_iff {previous desired : Json} :
    k.plan.retains previous desired = true ↔
      (∀ m : SharedMap, m.removals previous desired = []) ∧
        k.bodyPlan.retains previous desired = true := by
  have hshared : ∀ m : SharedMap,
      (!m.rule.isActive desired || m.rule.retains (previous.pointer? m.rule.pointer)
        (desired.pointer? m.rule.pointer)) = true ↔ m.removals previous desired = [] := by
    intro m
    simp [m.isActive_rule, Rule.retains, m.comparison_rule_ne_whole, SharedMap.removals]
  unfold Plan.retains
  rw [List.all_eq_true, List.all_eq_true]
  constructor
  · intro h
    exact ⟨fun m => (hshared m).1 (h _ (m.rule_mem_plan k)),
      fun r hr => h r (Kind.mem_plan_iff.2 (Or.inr hr))⟩
  · rintro ⟨hmaps, hbody⟩ r hr
    rcases Kind.mem_plan_iff.1 hr with ⟨m, rfl⟩ | hr
    · exact (hshared m).2 (hmaps m)
    · exact hbody r hr

/-- What the desired body leaves out demands nothing. -/
theorem complete_merged (hd : d.Complete) (hconfigured : d.configured = d) {desired : Json}
    (hguides : Guides desired d)
    (hretains : k.bodyPlan.retains o.configured.encode desired = true) :
    (o.merged d).Complete := by
  refine k.fields.complete_merged k.lawful_fields k.suppliedBy_steadyPaths hd ?_
  intro path hpath hnone
  obtain ⟨r, hr, hsteady, htokens⟩ := Kind.mem_steadyPaths.1 hpath
  have hsame : k.fields.configured d = d := hconfigured
  rw [Fields.written, hsame] at hnone
  have hleft : desired.pointer? r.pointer = none := by
    rw [hguides r (Kind.mem_plan_iff.2 (Or.inr hr)), Json.pointer?_eq htokens]
    exact hnone
  have hrule : r.retains (o.configured.encode.pointer? r.pointer)
      (desired.pointer? r.pointer) = true := by
    simpa [hsteady.isActive desired] using List.all_eq_true.1 hretains r hr
  have hkept := (Rule.retains_whole (k.comparison_of_mem_bodyPlan hr) hsteady.2.1).1 hrule
  rw [hleft, Json.pointer?_eq htokens] at hkept
  cases hprevious : resolve? path o.configured.encode with
  | none => exact hprevious
  | some v =>
    obtain ⟨change, hchange, -⟩ := hkept v hprevious
    cases hchange

/-- Another namespace changes the document there and nowhere else. -/
theorem revised_withNamespace (o : Object k) (ns : String) :
    Revised ["metadata", "namespace"] (some (.str ns)) o.encode (o.withNamespace ns).encode := by
  obtain ⟨⟨name?, generateName?, ns?, rest⟩, body⟩ := o
  have hmetadata : Entries.get? (k.fields.encode ((name?, generateName?, some ns, rest), body))
      "metadata" = some (.obj (Schema.metadata.encode (name?, generateName?, some ns, rest))) :=
    get?_metadata (k := k) ((name?, generateName?, some ns, rest), body)
  have hnamespace : Entries.get? (Schema.metadata.encode (name?, generateName?, some ns, rest))
      "namespace" = some (.str ns) := by
    rw [Fields.get?_encode_rest _ _ (by decide), Fields.get?_encode_rest _ _ (by decide)]
    exact Fields.get?_encode_cons (by decide) _ _
  have houter : Revised ["metadata"] (some (.obj (Schema.metadata.encode
      (name?, generateName?, some ns, rest))))
      (encode (k := k) ((name?, generateName?, ns?, rest), body))
      (encode (k := k) ((name?, generateName?, some ns, rest), body)) := by
    rw [← hmetadata]
    refine Revised.of_member fun other hother => Fields.get?_typed_congr ?_
    exact (Fields.get?_encode_rest _ _ (Ne.symm hother)).trans
      (Fields.get?_encode_rest _ _ (Ne.symm hother)).symm
  have hinner : Revised ["namespace"] (some (.str ns))
      (.obj (Schema.metadata.encode (name?, generateName?, ns?, rest)))
      (.obj (Schema.metadata.encode (name?, generateName?, some ns, rest))) := by
    rw [← hnamespace]
    refine Revised.of_member fun other hother =>
      Fields.get?_cons_congr (Fields.get?_cons_congr ?_)
    exact (Fields.get?_encode_rest _ _ (Ne.symm hother)).trans
      (Fields.get?_encode_rest _ _ (Ne.symm hother)).symm
  refine houter.within ?_ hinner
  rw [encode, Json.resolve?_singleton, get?_metadata]
  rfl

/-- The object in the namespace of an identity, if it has one. -/
def movedTo (d : Object k) (ns? : Option String) : Object k :=
  match ns? with
  | some ns => d.withNamespace ns
  | none => d

theorem named_movedTo (h : d.Named) (ns? : Option String) : (d.movedTo ns?).Named := by
  cases ns? with
  | none => exact h
  | some ns => exact h

theorem complete_movedTo (h : d.Complete) (ns? : Option String) : (d.movedTo ns?).Complete := by
  cases ns? with
  | none => exact h
  | some ns =>
    obtain ⟨⟨hname, hgenerate, -, hrest⟩, hbody⟩ := h
    exact ⟨⟨hname, hgenerate, fun _ _ => trivial, hrest⟩, hbody⟩

theorem configured_movedTo (h : d.configured = d) (ns? : Option String) :
    (d.movedTo ns?).configured = d.movedTo ns? := by
  cases ns? with
  | none => exact h
  | some ns =>
    have hsame : (d.withNamespace ns).configured = d.configured.withNamespace ns := rfl
    rw [movedTo, hsame, h]

theorem guides_movedTo (d : Object k) (ns? : Option String) : Guides d.encode (d.movedTo ns?) := by
  intro r hr
  cases ns? with
  | none => rfl
  | some ns => exact (d.pointer?_withNamespace ns hr).symm

end Object

end DesiredState
