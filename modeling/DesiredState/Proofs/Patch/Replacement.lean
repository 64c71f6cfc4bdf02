import DesiredState.Proofs.Kind.Denotation
import DesiredState.Proofs.Kind.Live

/-!
Which fields ask for a new object.
Only fields that changed in the trees are looked at, but this leaves none out:
what a document has at a rule's pointer depends on no more than what the tree
has at the rule's name. So the fields that are listed are those that differ in
the documents, in the order of the plan.
-/
namespace DesiredState

/-- Whether a desired value asks for a new object where the observed value is another one. What the
store fills in may be left out and may be more than was asked for. -/
def Rule.Replaces (r : Rule) (observed desired : Option Json) : Prop :=
  match observed, desired with
  | none, none => False
  | none, some _ => True
  | some _, none => r.computed = false
  | some o, some d => if r.computed then d.containedIn o = false else (d == o) = false

instance (r : Rule) : (observed desired : Option Json) → Decidable (r.Replaces observed desired)
  | none, none => inferInstanceAs (Decidable False)
  | none, some _ => inferInstanceAs (Decidable True)
  | some _, none => inferInstanceAs (Decidable (r.computed = false))
  | some o, some d =>
    inferInstanceAs (Decidable (if r.computed then d.containedIn o = false else (d == o) = false))

namespace Patch

theorem needsReplacement_iff {r : Rule} {o d : Json} :
    needsReplacement r o d = true ↔ r.Replaces (o.pointer? r.pointer) (d.pointer? r.pointer) := by
  unfold needsReplacement Rule.Replaces
  cases o.pointer? r.pointer with
  | none => cases d.pointer? r.pointer <;> simp
  | some v =>
    cases d.pointer? r.pointer with
    | none => simp
    | some w => cases hcomputed : r.computed <;> simp [differs, hcomputed, bne]

theorem not_needsReplacement_of_pointer?_eq {r : Rule} {previous desired : Json}
    (hdesired : desired.WellFormed)
    (h : previous.pointer? r.pointer = desired.pointer? r.pointer) :
    needsReplacement r previous desired = false := by
  unfold needsReplacement
  rw [h]
  cases hv : desired.pointer? r.pointer with
  | none => rfl
  | some v =>
    have hcontained := Json.containedIn_refl v (hdesired.pointer? hv)
    simp [differs, bne, hcontained]

variable {k : Kind} {s : Resource} {o d : Object k}

/-- The fields that are listed are those that differ, whether or not the trees show a change. -/
theorem replacedFields_eq_filter (hdesired : Object.expand k s.desired = .ok d)
    (hobserved : Object.expand k s.observed = .ok o) :
    replacedFields k s = .ok ((k.plan.filter fun r =>
      r.isForceNew && needsReplacement r o.encode d.encode).map Rule.name) := by
  have hd : document k s.desired = .ok d.encode := document_eq_ok.2 ⟨d, hdesired, rfl⟩
  have ho : document k s.observed = .ok o.encode := document_eq_ok.2 ⟨o, hobserved, rfl⟩
  -- A rule whose name shows no change has the same at its pointer on both sides.
  have hfilter : (k.plan.filter fun r => r.isForceNew && s.hasChange r.name).filter
      (needsReplacement · o.encode d.encode) =
      k.plan.filter fun r => r.isForceNew && needsReplacement r o.encode d.encode := by
    rw [List.filter_filter]
    refine List.filter_congr fun r hr => ?_
    cases hchange : s.hasChange r.name with
    | true => rw [Bool.and_true, Bool.and_comm]
    | false =>
      have hsame := pointer?_of_not_hasChange hd ho hr hchange
      rw [not_needsReplacement_of_pointer?_eq (Kind.wellFormed_encode d) hsame.symm]
      simp
  rw [← hfilter]
  unfold replacedFields
  dsimp only
  split
  · rename_i hnone
    rw [List.isEmpty_iff.1 hnone]
    rfl
  · rw [ho, hd]
    rfl

/-- No field asks for a new object where every rule sees what is desired. -/
theorem replacedFields_of_pointer?_eq (hobserved : Object.expand k s.observed = .ok o)
    (hdesired : Object.expand k s.desired = .ok d)
    (h : ∀ r ∈ k.plan, o.encode.pointer? r.pointer = d.encode.pointer? r.pointer) :
    replacedFields k s = .ok [] := by
  rw [replacedFields_eq_filter hdesired hobserved, Except.ok.injEq, List.map_eq_nil_iff,
    List.filter_eq_nil_iff]
  intro r hr
  rw [not_needsReplacement_of_pointer?_eq (Kind.wellFormed_encode d) (h r hr), Bool.and_false]
  exact Bool.false_ne_true

/-- Nothing is to be patched where every rule sees what is desired. -/
theorem between_of_pointer?_eq (hd : d.Complete)
    (h : ∀ r ∈ k.plan, o.encode.pointer? r.pointer = d.encode.pointer? r.pointer) :
    between o.encode d.encode k.plan = [] := by
  rw [between_congr h]
  refine List.flatMap_eq_nil_iff.2 fun r hr => ?_
  refine ruleOperations_of_meets
    (Rule.meets_refl fun v hv => (Kind.wellFormed_encode d).pointer? hv) fun hkeyed => ?_
  obtain ⟨ds, hds, hsorted⟩ := Kind.entries?_pointer hd hr hkeyed
  exact ⟨ds, ds, hds, hds, hsorted⟩

/-- For all trees that expand, however they are written, the fields that ask for a new object are
those force-new rules in the order of the plan whose documents differ at the pointer. -/
theorem replacedFields_exact (hdesired : Object.expand k s.desired = .ok d)
    (hobserved : Object.expand k s.observed = .ok o) :
    replacedFields k s = .ok ((k.plan.filter fun r => r.policy = .forceNew ∧
      r.Replaces (o.encode.pointer? r.pointer) (d.encode.pointer? r.pointer)).map Rule.name) := by
  rw [replacedFields_eq_filter hdesired hobserved]
  refine congrArg (fun rules => Except.ok (List.map Rule.name rules))
    (List.filter_congr fun r _ => ?_)
  rw [Bool.eq_iff_iff, Bool.and_eq_true, needsReplacement_iff, decide_eq_true_iff, Rule.isForceNew,
    beq_iff_eq]

/-- A binding that was seen with the group that its tree leaves out. -/
def ungrouped (role : String) : Resource where
  id? := some "default/readers"
  desired := .map [("metadata", .block [("name", .str "readers")]),
    ("role_ref", .block [("kind", .str "Role"), ("name", .str role)])]
  seen := Kind.bindingEntries "reader"
  sorted := Kind.rebound.sorted

/-- A group that is left out is a change in the tree and none in the document. -/
theorem replacedFields_exact_ungrouped :
    (ungrouped "reader").hasChange "role_ref" = true ∧
    (∃ d o, Object.expand .roleBinding (ungrouped "reader").desired = .ok d ∧
      Object.expand .roleBinding (ungrouped "reader").observed = .ok o ∧
      replacedFields .roleBinding (ungrouped "reader") = .ok [] ∧
      ¬ (Rule.forceNew "role_ref" "/roleRef").Replaces
        (o.encode.pointer? "/roleRef") (d.encode.pointer? "/roleRef")) ∧
    replacedFields .roleBinding (ungrouped "writer") = .ok ["role_ref"] := by
  obtain ⟨d, hd⟩ : ∃ d, Object.expand .roleBinding (ungrouped "reader").desired = .ok d := ⟨_, rfl⟩
  obtain ⟨o, ho⟩ : ∃ o, Object.expand .roleBinding (ungrouped "reader").observed = .ok o := ⟨_, rfl⟩
  obtain ⟨w, hw⟩ : ∃ w, Object.expand .roleBinding (ungrouped "writer").desired = .ok w := ⟨_, rfl⟩
  refine ⟨by decide +kernel, ⟨d, o, hd, ho, ?_, ?_⟩, ?_⟩
  · rw [replacedFields_exact hd ho]
    cases hd
    cases ho
    decide +kernel
  · cases hd
    cases ho
    decide +kernel
  · rw [replacedFields_exact hw (show Object.expand .roleBinding (ungrouped "writer").observed = _
      from ho)]
    cases hw
    cases ho
    decide +kernel

end Patch

end DesiredState
