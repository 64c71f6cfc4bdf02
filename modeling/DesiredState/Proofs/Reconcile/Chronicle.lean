import DesiredState.Proofs.Reconcile.Run
import DesiredState.Proofs.Resource
import DesiredState.Store.Rehearsal

/-!
Chronicles of reconciliation.
A chronicle keeps every request that a store was sent together with the reply.
What an operation ensures is a condition on its result, the exchanges it made
and the resource it leaves; such conditions are followed through an operation
part by part.
-/
namespace DesiredState

/-- A request and the reply that a store gave. -/
structure Exchange where
  request : Request
  reply : Except Error request.Reply

/-- A state together with the exchanges so far, the last one first. -/
structure Chronicle (σ : Type) where
  state : σ
  exchanges : List Exchange

variable {σ α β : Type}

/-- The store that also keeps each exchange. -/
def Store.chronicled (s : Store σ) : Store (Chronicle σ) where
  answer request w :=
    let (reply, state) := s.answer request w.state
    (reply, ⟨state, ⟨request, reply⟩ :: w.exchanges⟩)

def Clock.chronicled (c : Clock σ) : Clock (Chronicle σ) where
  now w := c.now w.state
  sleep d w := { w with state := c.sleep d w.state }
  cancelled w := c.cancelled w.state

def Reconciler.chronicled (r : Reconciler σ) : Reconciler (Chronicle σ) where
  store := r.store.chronicled
  clock := r.clock.chronicled
  settings := r.settings
  patience := r.patience

/-- What can be done to a resource: to change the desired tree, or to reconcile. -/
inductive Command where
  | setDesired (desired : Tree)
  | commit
  | create (k : Kind)
  | read (k : Kind)
  | update (k : Kind)
  | delete (k : Kind)
  | probe (k : Kind)
  | adopt (k : Kind) (text : String)

/-- Carries out a command. -/
def Reconciler.act (r : Reconciler σ) : Command → Operation σ Unit
  | .setDesired desired => Operation.keep (·.setDesired desired)
  | .commit => Operation.keep Resource.commit
  | .create k => r.create k
  | .read k => r.read k
  | .update k => r.update k
  | .delete k => r.delete k
  | .probe k => do let _ ← r.probe k
  | .adopt k text => r.adopt k text

/-- What a command leads to from a resource and a state of the store, with no exchanges before. -/
def Reconciler.account (r : Reconciler σ) (c : Command) (resource : Resource) (state : σ) :
    Except Stop Unit × Session (Chronicle σ) :=
  (r.chronicled.act c).perform ⟨resource, ⟨state, []⟩⟩

/-- Reconciles with a cluster for rehearsals. -/
def Rehearsal.reconciler : Reconciler Rehearsal :=
  ⟨Rehearsal.store, Rehearsal.clock, .initial, 1⟩

namespace Error

/-- The errors that stop an operation before anything is sent. -/
def isRefusal : Error → Bool
  | validation _ | forceNew _ _ => true
  | _ => false

end Error

namespace Operation

/-- From a resource and in any world, an operation makes exchanges that satisfy a condition
together with its result and the resource it leaves. -/
def Ensures (m : Operation (Chronicle σ) α) (before : Resource)
    (post : Except Stop α → List Exchange → Resource → Prop) : Prop :=
  ∀ world, ∃ made,
    (m.perform ⟨before, world⟩).2.world.exchanges = made ++ world.exchanges ∧
      post (m.perform ⟨before, world⟩).1 made (m.perform ⟨before, world⟩).2.resource

variable {m : Operation (Chronicle σ) α} {f : α → Operation (Chronicle σ) β}
  {before : Resource}

theorem Ensures.mono {P Q : Except Stop α → List Exchange → Resource → Prop}
    (h : m.Ensures before P)
    (himp : ∀ result made after, P result made after → Q result made after) :
    m.Ensures before Q := by
  intro world
  obtain ⟨made, hmade, hpost⟩ := h world
  exact ⟨made, hmade, himp _ _ _ hpost⟩

/-- A sequence ends where its first part stops or goes on from what that part leaves. -/
theorem Ensures.bind {P : Except Stop α → List Exchange → Resource → Prop}
    {post : Except Stop β → List Exchange → Resource → Prop} (h : m.Ensures before P)
    (hnext : ∀ a made mid, P (.ok a) made mid →
      (f a).Ensures mid fun result later after => post result (later ++ made) after)
    (hstop : ∀ stop made after, P (.error stop) made after → post (.error stop) made after) :
    (m >>= f).Ensures before post := by
  intro world
  obtain ⟨made, hmade, hpost⟩ := h world
  rw [perform_bind]
  generalize m.perform ⟨before, world⟩ = run at hmade hpost
  obtain ⟨result, mid, world'⟩ := run
  cases result with
  | error stop => exact ⟨made, hmade, hstop stop made mid hpost⟩
  | ok a =>
    obtain ⟨later, hlater, hlast⟩ := hnext a made mid hpost world'
    refine ⟨later ++ made, ?_, hlast⟩
    rw [hlater, List.append_assoc]
    exact congrArg (later ++ ·) hmade

variable {post : Except Stop α → List Exchange → Resource → Prop}
  {next : Except Stop β → List Exchange → Resource → Prop}

theorem ensures_pure {a : α} (h : post (.ok a) [] before) :
    (pure a : Operation (Chronicle σ) α).Ensures before post :=
  fun _ => ⟨[], rfl, h⟩

theorem ensures_keep {change : Resource → Resource}
    {post : Except Stop Unit → List Exchange → Resource → Prop}
    (h : post (.ok ()) [] (change before)) :
    (keep change : Operation (Chronicle σ) Unit).Ensures before post :=
  fun _ => ⟨[], rfl, h⟩

theorem ensures_inWorld {action : Chronicle σ → Except Stop α × Chronicle σ}
    (h : ∀ world, ∃ made, (action world).2.exchanges = made ++ world.exchanges ∧
      post (action world).1 made before) : (inWorld action).Ensures before post :=
  h

theorem ensures_resource_bind {f : Resource → Operation (Chronicle σ) β}
    (h : (f before).Ensures before next) : (resource >>= f).Ensures before next := h

theorem ensures_keep_bind {change : Resource → Resource} {f : Unit → Operation (Chronicle σ) β}
    (h : (f ()).Ensures (change before) next) : (keep change >>= f).Ensures before next := h

theorem ensures_require_bind {result : Except Error α}
    (hok : ∀ a, result = .ok a → (f a).Ensures before next)
    (herror : ∀ e, result = .error e → next (.error (.fault e)) [] before) :
    (require result >>= f).Ensures before next := by
  cases result with
  | ok a => exact hok a rfl
  | error e => exact fun _ => ⟨[], rfl, herror e rfl⟩

theorem perform_send_chronicled (store : Store σ) (request : Request)
    (s : Session (Chronicle σ)) : (send store.chronicled request).perform s =
      ((store.answer request s.world.state).1.mapError .fault,
        ⟨s.resource, (store.answer request s.world.state).2,
          ⟨request, (store.answer request s.world.state).1⟩ :: s.world.exchanges⟩) := rfl

theorem ensures_send_bind {store : Store σ} {request : Request}
    {f : request.Reply → Operation (Chronicle σ) β}
    (hok : ∀ v, (f v).Ensures before fun result later after =>
      next result (later ++ [⟨request, .ok v⟩]) after)
    (herror : ∀ e, next (.error (.fault e)) [⟨request, .error e⟩] before) :
    (send store.chronicled request >>= f).Ensures before next := by
  intro world
  rw [perform_bind, perform_send_chronicled]
  generalize store.answer request world.state = answered
  obtain ⟨reply, state⟩ := answered
  cases reply with
  | error e => exact ⟨[⟨request, .error e⟩], rfl, herror e⟩
  | ok v =>
    obtain ⟨later, hlater, hnext⟩ := hok v ⟨state, ⟨request, .ok v⟩ :: world.exchanges⟩
    refine ⟨later ++ [(⟨request, .ok v⟩ : Exchange)], ?_, hnext⟩
    rw [List.append_assoc]
    exact hlater

theorem ensures_recordedId_bind {k : Kind} {f : ObjectId → Operation (Chronicle σ) β}
    (hok : ∀ id, before.Records k id → (f id).Ensures before next)
    (herror : ∀ e, e.isRefusal → (∀ id, ¬ before.Records k id) →
      next (.error (.fault e)) [] before) :
    (recordedId k >>= f).Ensures before next := by
  unfold recordedId
  rw [bind_assoc]
  refine ensures_resource_bind ?_
  cases htext : before.id? with
  | none =>
    refine ensures_require_bind (fun _ h => by cases h) fun e he => herror e ?_ ?_
    · cases he
      rfl
    · rintro id ⟨text, hsome, -⟩
      rw [htext] at hsome
      cases hsome
  | some text =>
    refine ensures_require_bind (fun id hid => hok id ⟨text, htext, hid⟩) fun e he =>
      herror e ?_ ?_
    · rw [(ObjectId.decode_eq_error.1 he).2]
      rfl
    · rintro id ⟨text', hsome, hid⟩
      rw [htext] at hsome
      cases hsome
      rw [he] at hid
      cases hid

theorem ensures_tryCatch {P : Except Stop α → List Exchange → Resource → Prop}
    {handler : Stop → Operation (Chronicle σ) α} (h : m.Ensures before P)
    (hok : ∀ a made after, P (.ok a) made after → post (.ok a) made after)
    (hstop : ∀ stop made mid, P (.error stop) made mid →
      (handler stop).Ensures mid fun result later after => post result (later ++ made) after) :
    (tryCatch m handler).Ensures before post := by
  intro world
  obtain ⟨made, hmade, hpost⟩ := h world
  rw [perform_tryCatch]
  generalize m.perform ⟨before, world⟩ = run at hmade hpost
  obtain ⟨result, mid, world'⟩ := run
  cases result with
  | ok a => exact ⟨made, hmade, hok a made mid hpost⟩
  | error stop =>
    obtain ⟨later, hlater, hlast⟩ := hstop stop made mid hpost world'
    refine ⟨later ++ made, ?_, hlast⟩
    rw [hlater, List.append_assoc]
    exact congrArg (later ++ ·) hmade

end Operation

/-- How a read may end, with the exchanges it made and the resource it left. -/
inductive ReadEnd (k : Kind) (before : Resource) :
    Except Stop Unit → List Exchange → Resource → Prop where
  /-- No identity was recorded that could be read for. -/
  | unrecorded {e : Error} (hrefusal : e.isRefusal) (hnone : ∀ id, ¬ before.Records k id) :
      ReadEnd k before (.error (.fault e)) [] before
  | failed {id : ObjectId} {e : Error} (hid : before.Records k id) :
      ReadEnd k before (.error (.fault e)) [⟨.get k id, .error e⟩] before
  | unreadable {id : ObjectId} {v : Json} {e : Error} (hid : before.Records k id)
      (hdecode : Object.decode k v = .error e) :
      ReadEnd k before (.error (.fault e)) [⟨.get k id, .ok v⟩] before
  | taken {id : ObjectId} {v : Json} {o : Object k} (hid : before.Records k id)
      (hdecode : Object.decode k v = .ok o) :
      ReadEnd k before (.ok ()) [⟨.get k id, .ok v⟩] (before.refresh o.entries)

/-- How an adoption may end: with the end of a read by the given identity, if that is one. -/
inductive AdoptEnd (k : Kind) (before : Resource) :
    Except Stop Unit → List Exchange → Resource → Prop where
  | malformed {e : Error} : AdoptEnd k before (.error (.fault e)) [] before
  /-- The identity is not kept. -/
  | dropped {id : ObjectId} {stop : Stop} {made : List Exchange} {mid : Resource}
      (hread : ReadEnd k (before.setId (some id.text)) (.error stop) made mid) :
      AdoptEnd k before (.error stop) made (mid.setId none)
  | adopted {id : ObjectId} {made : List Exchange} {after : Resource}
      (hread : ReadEnd k (before.setId (some id.text)) (.ok ()) made after) :
      AdoptEnd k before (.ok ()) made after

namespace Reconciler

open Operation

theorem ensures_read (r : Reconciler σ) (k : Kind) (before : Resource) :
    (r.chronicled.read k).Ensures before (ReadEnd k before) := by
  refine ensures_recordedId_bind (fun id hid => ?_) fun e he hnone => .unrecorded he hnone
  unfold fetch
  rw [bind_assoc]
  refine ensures_send_bind (fun v => ?_) fun e => .failed hid
  exact ensures_require_bind (fun o ho => ensures_keep (.taken hid ho))
    fun e he => .unreadable hid he

theorem ensures_adopt (r : Reconciler σ) (k : Kind) (before : Resource) (text : String) :
    (r.chronicled.adopt k text).Ensures before (AdoptEnd k before) := by
  refine ensures_require_bind (fun id _ => ?_) fun e _ => .malformed
  refine ensures_keep_bind ?_
  refine ensures_tryCatch (ensures_read r k _) (fun _ _ _ hread => .adopted hread) ?_
  intro stop made mid hread
  exact ensures_keep_bind fun _ => ⟨[], rfl, .dropped hread⟩

end Reconciler

end DesiredState
