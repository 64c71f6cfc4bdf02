import DesiredState.Proofs.ObjectId
import DesiredState.Proofs.Outcome
import DesiredState.Reconcile.Operations

/-!
Operations as functions of a session.
Each part of an operation gives a result and a session, and a sequence stops at
the first part that fails. Reading and updating are given in this form, up to
the answers of the store.
-/
namespace DesiredState

/-- The identity that is recorded for a resource can be read. -/
def Resource.Records (r : Resource) (k : Kind) (id : ObjectId) : Prop :=
  ∃ text, r.id? = some text ∧ ObjectId.decode k.scope text = .ok id

namespace Operation

variable {σ α β : Type}

/-- What an operation results in, and what it makes of a session. -/
def perform (m : Operation σ α) (s : Session σ) : Except Stop α × Session σ :=
  (ExceptT.run m).run s

theorem perform_bind (m : Operation σ α) (f : α → Operation σ β) (s : Session σ) :
    (m >>= f).perform s = match m.perform s with
      | (.ok a, s') => (f a).perform s'
      | (.error e, s') => (.error e, s') := by
  unfold perform
  rw [ExceptT.run_bind, StateT.run_bind]
  change (match (ExceptT.run m).run s with | (a, s') => _) = _
  cases (ExceptT.run m).run s with
  | mk result s' =>
    cases result <;> rfl

theorem perform_eq_of_isOk {m : Operation σ Unit} {s : Session σ}
    (h : (m.perform s).1.isOk = true) : m.perform s = (.ok (), (m.perform s).2) := by
  cases hrun : m.perform s with
  | mk result s' =>
    rw [hrun] at h
    cases result with
    | ok _ => rfl
    | error stop => cases h

/-- A sequence succeeds if both of its parts do, the second one from where the first one ended. -/
theorem perform_bind_eq_ok {m : Operation σ α} {f : α → Operation σ β} {s s' : Session σ} {b : β} :
    (m >>= f).perform s = (.ok b, s') ↔
      ∃ a mid, m.perform s = (.ok a, mid) ∧ (f a).perform mid = (.ok b, s') := by
  rw [perform_bind]
  cases m.perform s with
  | mk result mid =>
    constructor
    · intro h
      cases result with
      | ok a => exact ⟨a, mid, rfl, h⟩
      | error stop => cases h
    · rintro ⟨_, _, heq, h⟩
      cases heq
      exact h

theorem perform_tryCatch (m : Operation σ α) (handler : Stop → Operation σ α) (s : Session σ) :
    (tryCatch m handler).perform s = match m.perform s with
      | (.ok a, s') => (.ok a, s')
      | (.error stop, s') => (handler stop).perform s' := by
  unfold perform
  rw [ExceptT.run_tryCatch, StateT.run_bind]
  change (match (ExceptT.run m).run s with | (result, s') => _) = _
  cases (ExceptT.run m).run s with
  | mk result s' =>
    cases result <;> rfl

theorem perform_resource (s : Session σ) : perform resource s = (.ok s.resource, s) := rfl

theorem perform_keep (change : Resource → Resource) (s : Session σ) :
    perform (keep change) s = (.ok (), { s with resource := change s.resource }) := rfl

theorem perform_require (result : Except Error α) (s : Session σ) :
    perform (require result) s = (result.mapError .fault, s) := rfl

theorem perform_require_eq_ok {result : Except Error α} {s s' : Session σ} {a : α} :
    perform (require result) s = (.ok a, s') ↔ result = .ok a ∧ s' = s := by
  rw [perform_require, Prod.mk.injEq, Outcome.mapError_eq_ok, eq_comm (a := s)]

theorem perform_send (store : Store σ) (r : Request) (s : Session σ) :
    perform (send store r) s = ((store.answer r s.world).1.mapError .fault,
      { s with world := (store.answer r s.world).2 }) := rfl

theorem perform_send_eq_ok {store : Store σ} {r : Request} {s s' : Session σ} {v : r.Reply} :
    perform (send store r) s = (.ok v, s') ↔
      ∃ world, store.answer r s.world = (.ok v, world) ∧ s' = { s with world } := by
  rw [perform_send]
  cases store.answer r s.world with
  | mk reply world =>
    constructor
    · intro h
      cases reply with
      | error e => cases h
      | ok _ =>
        cases h
        exact ⟨world, rfl, rfl⟩
    · rintro ⟨_, heq, rfl⟩
      cases heq
      rfl

theorem perform_recordedId {k : Kind} {s : Session σ} {id : ObjectId}
    (hid : s.resource.Records k id) : (recordedId k).perform s = (.ok id, s) := by
  obtain ⟨text, htext, hdecode⟩ := hid
  unfold recordedId
  simp only [perform_bind, perform_resource, htext, hdecode, perform_require]
  rfl

end Operation

namespace Reconciler

open Operation

variable {σ : Type} {r : Reconciler σ} {k : Kind} {id : ObjectId} {s : Session σ}

theorem perform_fetch (r : Reconciler σ) (k : Kind) (id : ObjectId) (s : Session σ) :
    (r.fetch k id).perform s =
      (((r.store.answer (.get k id) s.world).1.bind (Object.decode k)).mapError .fault,
        { s with world := (r.store.answer (.get k id) s.world).2 }) := by
  unfold fetch
  simp only [perform_bind, perform_send r.store (.get k id), perform_require]
  cases (r.store.answer (.get k id) s.world).1 <;> rfl

/-- Reading takes over what the store answers with. -/
theorem perform_read (hid : s.resource.Records k id) :
    (r.read k).perform s =
      match (r.store.answer (.get k id) s.world).1.bind (Object.decode k) with
      | .ok o => (.ok (), ⟨s.resource.refresh o.entries, (r.store.answer (.get k id) s.world).2⟩)
      | .error e => (.error (.fault e), ⟨s.resource, (r.store.answer (.get k id) s.world).2⟩) := by
  unfold read
  simp only [perform_bind, perform_recordedId hid, perform_keep]
  rw [perform_fetch]
  cases (r.store.answer (.get k id) s.world).1.bind (Object.decode k) <;> rfl

/-- A read that succeeds takes over an object that the store answers with. -/
theorem perform_read_eq_ok (hid : s.resource.Records k id) {s' : Session σ} :
    (r.read k).perform s = (.ok (), s') ↔
      ∃ o, (r.store.answer (.get k id) s.world).1.bind (Object.decode k) = .ok o ∧
        s' = ⟨s.resource.refresh o.entries, (r.store.answer (.get k id) s.world).2⟩ := by
  rw [perform_read hid]
  cases (r.store.answer (.get k id) s.world).1.bind (Object.decode k) with
  | ok o => simp [eq_comm]
  | error e => simp

/-- What is left of an update once the change is known: to send it and to read the object. -/
def conclude (r : Reconciler σ) (k : Kind) (id : ObjectId) : Option Change → Operation σ Unit
  | some change => do
    let _ ← send r.store (.change k id change)
    r.read k
  | none => r.read k

/-- What is left of a creation once the store replied with the new object: to record its identity,
to wait and to read it. -/
def takeOver (r : Reconciler σ) (k : Kind) (reply : Json) : Operation σ Unit := do
  let created ← require (Object.decode k reply)
  let id ← require created.id
  keep (·.setId (some id.text))
  r.awaitReady id created
  r.read k

theorem create_eq (r : Reconciler σ) (k : Kind) : r.create k = (do
    let desired ← require (Object.expand k (← resource).desired)
    let object := desired.placed r.settings.defaultNamespace
    let reply ← send r.store (.create k object.ns? object.encode)
    r.takeOver k reply) := rfl

/-- What is left of an update once something was seen: to find the change and to conclude. -/
def amend (r : Reconciler σ) (k : Kind) (id : ObjectId) : Operation σ Unit := do
  let fields ← require (Patch.replacedFields k (← resource))
  if fields ≠ [] then require (.error (.forceNew k.name fields))
  let change? ← require (pendingChange k id (← resource))
  r.conclude k id change?

theorem update_eq (r : Reconciler σ) (k : Kind) : r.update k = (do
    let id ← recordedId k
    if (← resource).seen.isEmpty then r.read k
    r.amend k id) := by
  unfold update amend conclude
  rfl

theorem perform_update (hid : s.resource.Records k id) (hseen : s.resource.seen ≠ [])
    (hreplaced : Patch.replacedFields k s.resource = .ok []) {change? : Option Change}
    (hchange : pendingChange k id s.resource = .ok change?) :
    (r.update k).perform s = (r.conclude k id change?).perform s := by
  have hlooked : ¬ s.resource.seen.isEmpty = true := by simpa using hseen
  unfold update
  simp only [perform_bind, perform_recordedId hid, perform_resource, if_neg hlooked, hreplaced,
    perform_require]
  simp only [Outcome.mapError_ok, ne_eq, not_true_eq_false, if_false, perform_bind,
    perform_resource, hchange, perform_require]
  cases change? <;> rfl

/-- An update that would have to replace the object stops before it does anything. -/
theorem perform_update_of_replaced (hid : s.resource.Records k id)
    (hseen : s.resource.seen ≠ []) (hreplaced : Patch.replacedFields k s.resource ≠ .ok []) :
    ∃ stop, (r.update k).perform s = (.error stop, s) := by
  have hlooked : ¬ s.resource.seen.isEmpty = true := by simpa using hseen
  unfold update
  simp only [perform_bind, perform_recordedId hid, perform_resource, if_neg hlooked,
    perform_require]
  cases hfields : Patch.replacedFields k s.resource with
  | error e => exact ⟨.fault e, rfl⟩
  | ok fields =>
    have hsome : fields ≠ [] := fun hnil => hreplaced (hnil ▸ hfields)
    simp only [Outcome.mapError_ok, if_pos hsome, perform_bind, perform_require]
    exact ⟨_, rfl⟩

end Reconciler

end DesiredState
