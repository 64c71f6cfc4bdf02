import DesiredState.Proofs.Outcome
import DesiredState.Proofs.Patch.Generated
import DesiredState.Proofs.Patch.Leads

/-!
Patches as they are sent.
A patch is sent as the steps that its document is read as. It cannot be sent if
an addition or replacement lacks its value; otherwise every operation is sent as
one step that says the same, in order, a null value being a value like any other
one. A patch along a plan lacks nothing.
-/
namespace DesiredState.Patch

/-- The steps that a document of a whole patch is read as. -/
def stepsOfDocument? (v : Json) : Option (List Step) := v.items?.bind (·.mapM Step.ofDocument?)

/-- The operation that a step says, if it adds, removes or replaces. -/
def Step.operation? : Step → Option Operation
  | .add pointer v => some (Patch.add pointer v)
  | .remove pointer => some (Patch.remove pointer)
  | .replace pointer v => some (Patch.replace pointer v)
  | .move .. | .copy .. | .test .. => none

namespace Operation

def LacksValue (op : Operation) : Prop := op.action ≠ .remove ∧ op.value? = none

/-- The operation without a value that its action does not take. -/
def trimmed (op : Operation) : Operation :=
  match op.action with
  | .remove => remove op.pointer
  | .add | .replace => op

theorem toStep?_eq_none_iff {op : Operation} : op.toStep? = none ↔ op.LacksValue := by
  obtain ⟨action, pointer, value?⟩ := op
  cases action <;> cases value? <;> simp [toStep?, LacksValue]

theorem Formed.not_lacksValue {op : Operation} (h : op.Formed) : ¬ op.LacksValue := by
  rintro ⟨hremove, hnone⟩
  cases h with
  | add pointer v | replace pointer v => cases hnone
  | remove pointer => exact hremove rfl

theorem Formed.trimmed_eq {op : Operation} (h : op.Formed) : op.trimmed = op := by
  cases h <;> rfl

end Operation

theorem Step.operation?_of_toStep? {op : Operation} {s : Step} (h : op.toStep? = some s) :
    s.operation? = some op.trimmed := by
  unfold Operation.toStep? at h
  split at h <;> cases h <;> rfl

theorem Step.document_of_toStep? {op : Operation} {s : Step} (h : op.toStep? = some s) :
    s.document = op.trimmed.document := by
  unfold Operation.toStep? at h
  split at h <;> cases h <;> rfl

theorem Operation.document_eq (op : Operation) :
    op.document = .obj (("op", .str op.action.name) :: ("path", .str op.pointer) ::
      (op.value?.map (("value", ·))).toList) := by
  obtain ⟨action, pointer, value?⟩ := op
  have hkeys : ["op", "path", "value"].Pairwise (· < ·) := by decide +kernel
  cases value? with
  | none =>
    have hshort : ["op", "path"].Pairwise (· < ·) := hkeys.sublist (List.sublist_append_left _ _)
    exact congrArg Json.obj (Entries.ofList_of_sorted (List.pairwise_map.1 hshort))
  | some v => exact congrArg Json.obj (Entries.ofList_of_sorted (List.pairwise_map.1 hkeys))

/-- The document of an operation is read as the step that it is sent as, or not at all. -/
theorem Step.ofDocument?_document (op : Operation) : Step.ofDocument? op.document = op.toStep? := by
  rw [op.document_eq]
  obtain ⟨action, pointer, value?⟩ := op
  cases action <;> cases value? <;> rfl

theorem toSteps_eq_error {patch : List Operation} {e : Error} :
    toSteps patch = .error e ↔
      e = .validation .valuelessOperation ∧ ∃ op ∈ patch, op.LacksValue := by
  simp only [← Operation.toStep?_eq_none_iff, ← Outcome.mapM_eq_none_iff]
  rw [toSteps]
  cases patch.mapM Operation.toStep? <;> simp [eq_comm]

theorem stepsOfDocument?_documents (patch : List Operation) :
    stepsOfDocument? (.arr (patch.map Operation.document)) = patch.mapM Operation.toStep? := by
  simp [stepsOfDocument?, Json.items?, List.mapM_map, Function.comp_def,
    Step.ofDocument?_document]

/-- A patch is sent as the steps that its document is read as. It fails to be sent, as malformed
and as a whole, exactly if an operation lacks its value, and otherwise the steps say its operations
in their order. The patch between two documents is always sent, and as its own document. -/
theorem toSteps_faithful :
    (∀ patch, toSteps patch =
      match stepsOfDocument? (.arr (patch.map Operation.document)) with
      | some steps => .ok steps
      | none => .error (.validation .valuelessOperation)) ∧
    (∀ patch, (∃ e, toSteps patch = .error e) ↔ ∃ op ∈ patch, op.LacksValue) ∧
    (∀ patch steps, toSteps patch = .ok steps →
      steps.map Step.operation? = patch.map (fun op => some op.trimmed)) ∧
    ∀ previous desired plan, ∃ steps, toSteps (between previous desired plan) = .ok steps ∧
      steps.map Step.operation? = (between previous desired plan).map some ∧
      steps.map Step.document = (between previous desired plan).map Operation.document := by
  have htold : ∀ patch steps, toSteps patch = .ok steps →
      steps.map Step.operation? = patch.map (fun op => some op.trimmed) :=
    fun patch steps h => Outcome.map_eq_of_mapM (toSteps_eq_ok.1 h)
      fun _ _ _ => Step.operation?_of_toStep?
  refine ⟨fun patch => ?_, fun patch => ?_, htold, fun previous desired plan => ?_⟩
  · rw [stepsOfDocument?_documents]
    rfl
  · simp [toSteps_eq_error]
  · have hformed : ∀ op ∈ between previous desired plan, op.Formed := fun op hop => by
      obtain ⟨r, -, hserves⟩ := exists_serves_of_mem_between hop
      exact hserves.formed
    cases hsteps : toSteps (between previous desired plan) with
    | error e =>
      obtain ⟨-, op, hop, hlacks⟩ := toSteps_eq_error.1 hsteps
      exact absurd hlacks (hformed op hop).not_lacksValue
    | ok steps =>
      refine ⟨steps, rfl, ?_, ?_⟩
      · rw [htold _ _ hsteps]
        exact List.map_congr_left fun op hop => by rw [(hformed op hop).trimmed_eq]
      · rw [Outcome.map_eq_of_mapM (toSteps_eq_ok.1 hsteps) fun _ _ _ => Step.document_of_toStep?]
        exact List.map_congr_left fun op hop => by rw [(hformed op hop).trimmed_eq]

/-- A null is sent as the value of an addition, and a value beside a removal is not sent. -/
example :
    toSteps [add "/a" .null, ⟨.remove, "/b", some .null⟩] =
      .ok [.add "/a" .null, .remove "/b"] := rfl

end DesiredState.Patch
