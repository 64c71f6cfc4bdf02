import DesiredState.Proofs.Patch.Correct

/-!
The maps that others write to.
Labels and annotations are compared key by key, and only they are. Their rules
come first in the plan of every kind, apart from the rules for its body.
-/
namespace DesiredState

open Json (entries? resolve?)

/-- The maps of the metadata that others write to as well. -/
inductive SharedMap where
  | labels
  | annotations
deriving DecidableEq

namespace SharedMap

def key : SharedMap → String
  | labels => "labels"
  | annotations => "annotations"

def rule : SharedMap → Rule
  | labels => Kind.labelRule
  | annotations => Kind.annotationRule

/-- The tokens of the pointer to a shared map. -/
def path (m : SharedMap) : List String := ["metadata", m.key]

variable (m : SharedMap)

theorem tokens?_rule : Pointer.tokens? m.rule.pointer = some m.path := by
  cases m <;> decide +kernel

theorem isActive_rule (desired : Json) : m.rule.isActive desired = true := by
  cases m <;> rfl

theorem comparison_rule_ne_whole : m.rule.comparison ≠ .whole := by
  cases m <;> decide

theorem rule_mem_plan (k : Kind) : m.rule ∈ k.plan := by
  cases m with
  | labels => exact List.mem_cons_self
  | annotations => exact List.mem_cons_of_mem _ List.mem_cons_self

theorem place?_path (k : Kind) :
    k.fields.place? m.path = some ⟨.optional, .leaf .textMap⟩ := by
  cases m <;> rfl

end SharedMap

namespace Kind

theorem mem_plan_iff {k : Kind} {r : Rule} :
    r ∈ k.plan ↔ (∃ m : SharedMap, r = m.rule) ∨ r ∈ k.bodyPlan := by
  constructor
  · intro h
    rcases List.mem_cons.1 h with rfl | h
    · exact Or.inl ⟨.labels, rfl⟩
    · rcases List.mem_cons.1 h with rfl | h
      · exact Or.inl ⟨.annotations, rfl⟩
      · exact Or.inr h
  · rintro (⟨m, rfl⟩ | h)
    · exact m.rule_mem_plan k
    · exact List.mem_cons_of_mem _ (List.mem_cons_of_mem _ h)

/-- Nothing else is compared key by key. -/
theorem comparison_of_mem_bodyPlan (k : Kind) {r : Rule} (hr : r ∈ k.bodyPlan) :
    r.comparison = .whole := by
  have hall : k.bodyPlan.all (fun r => r.comparison = .whole) = true := by
    cases k <;> decide +kernel
  exact of_decide_eq_true (List.all_eq_true.1 hall r hr)

/-- The body of an object lies apart from its metadata. -/
theorem apart_metadata_bodyPlan (k : Kind) {r : Rule} (hr : r ∈ k.bodyPlan) {tokens : List String}
    (h : Pointer.tokens? r.pointer = some tokens) : Apart ["metadata"] tokens := by
  have hall : k.bodyPlan.all (fun r => ((Pointer.tokens? r.pointer).getD []).head?.any
      (· ≠ "metadata")) = true := by
    cases k <;> decide +kernel
  have hbody := List.all_eq_true.1 hall r hr
  rw [h, Option.getD_some] at hbody
  cases tokens with
  | nil => cases hbody
  | cons token rest =>
    have hne : token ≠ "metadata" := by simpa using hbody
    constructor
    · intro hle
      exact hne (List.cons_prefix_cons.1 hle).1.symm
    · intro hle
      exact hne (List.cons_prefix_cons.1 hle).1

end Kind

/-- The shared maps of the document of a tree are objects. -/
theorem Patch.entries?_document {k : Kind} {t : Tree} (ht : t.WellFormed) {d : Json}
    (hd : document k t = .ok d) (m : SharedMap) :
    ∃ ds, entries? (resolve? m.path d) = some ds ∧ Entries.Sorted ds := by
  obtain ⟨o, ho, rfl⟩ := document_eq_ok.1 hd
  obtain ⟨-, hcomplete, -, -⟩ := Object.settled_of_expand ht ho
  obtain ⟨-, held, -, hvalue⟩ :=
    k.fields.resolve?_encode k.lawful_fields (m.place?_path k) o hcomplete
  rw [Object.encode, hvalue]
  cases held with
  | none => exact ⟨[], rfl, Entries.sorted_nil⟩
  | some texts => exact ⟨_, rfl, Entries.sorted_map Json.str texts.sorted⟩

end DesiredState
