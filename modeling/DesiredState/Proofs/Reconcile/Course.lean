import DesiredState.Proofs.Reconcile.Chronicle
import Mathlib.Tactic.Choose
import Mathlib.Tactic.SplitIfs

/-!
Courses of operations.
What an operation asks of a store and a clock depends on its resource, on the
settings, and on the answers so far: it follows a course that is the same for
all of them. What holds of every run of a course holds of every operation.
-/
namespace DesiredState

/-- Questions to a store and to a clock, each chosen by the answers to those before. -/
inductive Course (α : Type) where
  | done (a : α)
  | ask (request : Request) (next : Except Error request.Reply → Course α)
  | look (next : Int → Course α)
  | heed (next : Bool → Course α)
  | sleep (d : Duration) (next : Course α)

variable {σ α β : Type}

namespace Course

/-- What a course comes to, and what is made of the world on the way. -/
def run (store : Store σ) (clock : Clock σ) : Course α → σ → α × σ
  | done a, w => (a, w)
  | ask request next, w =>
    (next (store.answer request w).1).run store clock (store.answer request w).2
  | look next, w => (next (clock.now w)).run store clock w
  | heed next, w => (next (clock.cancelled w)).run store clock w
  | sleep d next, w => next.run store clock (clock.sleep d w)

def bind : Course α → (α → Course β) → Course β
  | done a, f => f a
  | ask request next, f => ask request fun reply => (next reply).bind f
  | look next, f => look fun now => (next now).bind f
  | heed next, f => heed fun cancelled => (next cancelled).bind f
  | sleep d next, f => sleep d (next.bind f)

theorem run_bind (store : Store σ) (clock : Clock σ) (c : Course α) (f : α → Course β) (w : σ) :
    (c.bind f).run store clock w =
      (f (c.run store clock w).1).run store clock (c.run store clock w).2 := by
  induction c generalizing w with
  | done a => rfl
  | ask request next ih => exact ih _ _
  | look next ih => exact ih _ _
  | heed next ih => exact ih _ _
  | sleep d next ih => exact ih _

end Course

/-- The rounds of a wait for an object. -/
def Course.rounds (backoff : Backoff) (k : Kind) (id : ObjectId) (goal : Goal) (start : Int) :
    Nat → Duration → Course (Except Stop (Object k))
  | 0, _ => .done (.error .undecided)
  | more + 1, delay => .heed fun cancelled =>
    if cancelled then .done (.error (.fault (.cancelled goal.target)))
    else .ask (.get k id) fun reply =>
      match reply.bind (Object.decode k) with
      | .error e => .done (.error (.fault e))
      | .ok o => .look fun now =>
        let elapsed := Duration.between start now
        if o.readyLabel = goal.target then .done (.ok o)
        else if o.readyLabel ∉ goal.pending then
          .done (.error (.fault (.unexpectedState o.readyLabel goal.target)))
        else if goal.timeout ≤ elapsed then
          .done (.error (.fault (.timeout goal.target (some o.readyLabel) elapsed "")))
        else .heed fun cancelled =>
          if cancelled then .done (.error (.fault (.cancelled goal.target)))
          else .sleep (delay.least (goal.timeout.minus elapsed))
            (rounds backoff k id goal start more (backoff.next delay))

theorem Reconciler.wait_rounds (r : Reconciler σ) (k : Kind) (id : ObjectId) (goal : Goal)
    (start : Int) (limit : Nat) (delay : Duration) (w : σ) :
    (r.readinessWait k id goal).rounds start limit delay w =
      (Course.rounds r.backoff k id goal start limit delay).run r.store r.clock w := by
  induction limit generalizing delay w with
  | zero => rfl
  | succ more ih =>
    have hrefresh : (r.readinessWait k id goal).refresh w =
        ((do
          let o ← Object.decode k (← (r.store.answer (.get k id) w).1)
          return (o, o.readyLabel)), (r.store.answer (.get k id) w).2) := rfl
    have hclock : (r.readinessWait k id goal).clock = r.clock := rfl
    have hgoal : (r.readinessWait k id goal).goal = goal := rfl
    have hbackoff : (r.readinessWait k id goal).backoff = r.backoff := rfl
    simp only [Wait.rounds, Wait.round, Course.rounds, Course.run, hrefresh, hclock]
    cases hcancelled : r.clock.cancelled w with
    | true => rfl
    | false =>
      simp only [Bool.false_eq_true, if_false, Course.run]
      cases r.store.answer (.get k id) w with
      | mk reply w' =>
        cases reply with
        | error e => rfl
        | ok v =>
          cases hdecode : Object.decode k v with
          | error e =>
            have hlook : (Except.ok v : Except Error Json).bind (Object.decode k) = .error e :=
              hdecode
            simp only [Outcome.ok_bind, hdecode, Outcome.error_bind, hlook, Course.run]
            rfl
          | ok o =>
            have hlook : (Except.ok v : Except Error Json).bind (Object.decode k) = .ok o := hdecode
            simp only [Outcome.ok_bind, hdecode, Outcome.pure_eq_ok, hlook, Wait.judge, hclock,
              hgoal, hbackoff, Course.run]
            split_ifs with hlabel hpending hlate hlater
            · rfl
            · rfl
            · simp only [Course.run, hlater, if_true]
              rfl
            · simp only [Course.run, hlater]
              exact ih _ _
            · rfl

/-- What follows a wait: a question for warnings if it took too long. -/
def Course.explain (warningLimit : Nat) (k : Kind) (id : ObjectId) :
    Except Stop α → Course (Except Stop α)
  | .error (.fault (.timeout target last waited _)) =>
    .ask (.warnings k id) fun
    | .ok warnings => .done (.error (.fault (.timeout target last waited
        (Warning.report (Warning.recent warnings warningLimit)))))
    | .error e => .done (.error (.fault e))
  | ended => .done ended

def Course.waited (settings : Settings) (patience : Nat) (k : Kind) (id : ObjectId) (goal : Goal) :
    Course (Except Stop (Object k)) :=
  .look fun start => Course.rounds ⟨settings.leastDelay, settings.greatestDelay⟩ k id goal start
    patience settings.leastDelay

def Course.explained (settings : Settings) (patience : Nat) (k : Kind) (id : ObjectId)
    (goal : Goal) : Course (Except Stop (Object k)) :=
  (Course.waited settings patience k id goal).bind (Course.explain settings.warningLimit k id)

theorem Reconciler.wait_run (r : Reconciler σ) (k : Kind) (id : ObjectId) (goal : Goal) (w : σ) :
    (r.readinessWait k id goal).run r.patience w =
      (Course.waited r.settings r.patience k id goal).run r.store r.clock w :=
  r.wait_rounds k id goal _ _ _ w

theorem Reconciler.wait_runExplained (r : Reconciler σ) (k : Kind) (id : ObjectId) (goal : Goal)
    (w : σ) :
    (r.readinessWait k id goal).runExplained (r.store.answer (.warnings k id))
        r.settings.warningLimit r.patience w =
      (Course.explained r.settings r.patience k id goal).run r.store r.clock w := by
  rw [Wait.runExplained, r.wait_run, Course.explained, Course.run_bind]
  cases (Course.waited r.settings r.patience k id goal).run r.store r.clock w with
  | mk result w' =>
    cases result with
    | ok o => rfl
    | error stop =>
      cases stop with
      | undecided => rfl
      | fault e =>
        cases e with
        | timeout target last waited events =>
          simp only [Course.explain, Course.run]
          cases r.store.answer (.warnings k id) w' with
          | mk reply w'' => cases reply <;> rfl
        | _ => rfl

/-- From each resource an operation follows a course, which ends with a result and a resource. -/
def Operation.Charted (settings : Settings) (patience : Nat)
    (m : ∀ σ, Reconciler σ → Operation σ α) : Prop :=
  ∃ course : Resource → Course (Except Stop α × Resource), ∀ σ store clock (s : Session σ),
    (m σ ⟨store, clock, settings, patience⟩).perform s =
      (((course s.resource).run store clock s.world).1.1,
        ⟨((course s.resource).run store clock s.world).1.2,
          ((course s.resource).run store clock s.world).2⟩)

variable {settings : Settings} {patience : Nat}

namespace Operation

variable {m : ∀ σ, Reconciler σ → Operation σ α} {f : ∀ σ, Reconciler σ → α → Operation σ β}

/-- What a reconciler has from its settings may be taken from them. -/
theorem Charted.congr {n : ∀ σ, Reconciler σ → Operation σ α} (h : Charted settings patience m)
    (heq : ∀ σ store clock, n σ ⟨store, clock, settings, patience⟩ =
      m σ ⟨store, clock, settings, patience⟩) : Charted settings patience n := by
  obtain ⟨course, hcourse⟩ := h
  refine ⟨course, fun σ store clock s => ?_⟩
  rw [heq, hcourse]

theorem charted_pure (a : α) : Charted settings patience fun _ _ => pure a :=
  ⟨fun resource => .done (.ok a, resource), fun _ _ _ _ => rfl⟩

theorem charted_resource : Charted settings patience fun _ _ => resource :=
  ⟨fun resource => .done (.ok resource, resource), fun _ _ _ _ => rfl⟩

theorem charted_keep (change : Resource → Resource) :
    Charted settings patience fun _ _ => keep change :=
  ⟨fun resource => .done (.ok (), change resource), fun _ _ _ _ => rfl⟩

theorem charted_require (result : Except Error α) :
    Charted settings patience fun _ _ => require result :=
  ⟨fun resource => .done (result.mapError .fault, resource), fun _ _ _ _ => rfl⟩

theorem charted_send (request : Request) :
    Charted settings patience fun _ r => send r.store request :=
  ⟨fun resource => .ask request fun reply => .done (reply.mapError .fault, resource),
    fun _ _ _ _ => rfl⟩

theorem charted_inWorld {action : ∀ σ, Reconciler σ → σ → Except Stop α × σ}
    (course : Course (Except Stop α)) (h : ∀ σ store clock (w : σ),
      action σ ⟨store, clock, settings, patience⟩ w = course.run store clock w) :
    Charted settings patience fun σ r => inWorld (action σ r) := by
  refine ⟨fun resource => course.bind fun result => .done (result, resource), ?_⟩
  intro σ store clock s
  rw [Course.run_bind, ← h]
  rfl

/-- A sequence follows the course of its first part and goes on from its result. -/
theorem Charted.bind (h : Charted settings patience m)
    (hnext : ∀ a, Charted settings patience fun σ r => f σ r a) :
    Charted settings patience fun σ r => m σ r >>= f σ r := by
  obtain ⟨course, hcourse⟩ := h
  choose next hnext using hnext
  refine ⟨fun resource => (course resource).bind fun
    | (.ok a, after) => next a after
    | (.error stop, after) => .done (.error stop, after), fun σ store clock s => ?_⟩
  rw [perform_bind, hcourse, Course.run_bind]
  generalize (course s.resource).run store clock s.world = ended
  obtain ⟨⟨result, after⟩, w⟩ := ended
  cases result with
  | ok a => exact hnext a σ store clock ⟨after, w⟩
  | error stop => rfl

theorem Charted.tryCatch {handler : ∀ σ, Reconciler σ → Stop → Operation σ α}
    (h : Charted settings patience m)
    (hstop : ∀ stop, Charted settings patience fun σ r => handler σ r stop) :
    Charted settings patience fun σ r => MonadExcept.tryCatch (m σ r) (handler σ r) := by
  obtain ⟨course, hcourse⟩ := h
  choose next hnext using hstop
  refine ⟨fun resource => (course resource).bind fun
    | (.ok a, after) => .done (.ok a, after)
    | (.error stop, after) => next stop after, fun σ store clock s => ?_⟩
  rw [perform_tryCatch, hcourse, Course.run_bind]
  generalize (course s.resource).run store clock s.world = ended
  obtain ⟨⟨result, after⟩, w⟩ := ended
  cases result with
  | ok a => rfl
  | error stop => exact hnext stop σ store clock ⟨after, w⟩

theorem charted_recordedId (k : Kind) : Charted settings patience fun _ _ => recordedId k := by
  refine charted_resource.bind fun resource => ?_
  cases resource.id? with
  | some text => exact charted_require _
  | none => exact charted_require _

end Operation

namespace Reconciler

open Operation

theorem charted_read (k : Kind) : Charted settings patience fun _ r => r.read k := by
  refine (charted_recordedId k).bind fun id => ?_
  refine Charted.bind ?_ fun live => charted_keep _
  exact (charted_send (.get k id)).bind fun v => charted_require _

theorem charted_awaitReady {k : Kind} (id : ObjectId) (created : Object k) :
    Charted settings patience fun _ r => r.awaitReady id created := by
  cases hcount : created.readiness with
  | none =>
    refine (charted_pure ()).congr fun σ store clock => ?_
    simp only [awaitReady, hcount]
  | some count =>
    cases htimeout : settings.readinessTimeout k with
    | none =>
      refine (charted_pure ()).congr fun σ store clock => ?_
      simp only [awaitReady, hcount, htimeout]
    | some timeout =>
      have hwait : Charted settings patience fun _ r =>
          inWorld ((r.readinessWait k id (.ofCount count.target timeout)).runExplained
            (r.store.answer (.warnings k id)) r.settings.warningLimit r.patience) :=
        charted_inWorld (Course.explained settings patience k id _) fun σ store clock w =>
          wait_runExplained ⟨store, clock, settings, patience⟩ k id _ w
      refine (hwait.bind fun _ => charted_pure ()).congr fun σ store clock => ?_
      simp only [awaitReady, hcount, htimeout]

/-- What follows the reply to a creation. -/
theorem charted_takeOver (k : Kind) (reply : Json) :
    Charted settings patience fun _ r => r.takeOver k reply := by
  refine (charted_require _).bind fun created => ?_
  refine (charted_require _).bind fun id => ?_
  refine (charted_keep _).bind fun _ => ?_
  exact (charted_awaitReady id created).bind fun _ => charted_read k

theorem charted_create (k : Kind) : Charted settings patience fun _ r => r.create k := by
  simp only [create_eq]
  refine charted_resource.bind fun resource => ?_
  refine (charted_require _).bind fun desired => ?_
  have hsent : Charted settings patience fun _ r => send r.store
      (.create k (desired.placed settings.defaultNamespace).ns?
        (desired.placed settings.defaultNamespace).encode) :=
    charted_send _
  exact (hsent.bind fun reply => charted_takeOver k reply).congr fun _ _ _ => rfl

theorem charted_amend (k : Kind) (id : ObjectId) :
    Charted settings patience fun _ r => r.amend k id := by
  have hrest : Charted settings patience fun _ r => (do
      let change? ← require (pendingChange k id (← resource))
      r.conclude k id change?) := by
    refine charted_resource.bind fun resource => ?_
    refine (charted_require _).bind fun change? => ?_
    cases change? with
    | none => exact charted_read k
    | some change => exact (charted_send _).bind fun _ => charted_read k
  refine charted_resource.bind fun resource => ?_
  refine (charted_require _).bind fun fields => ?_
  by_cases hfields : fields ≠ []
  · simp only [if_pos hfields]
    exact (charted_require _).bind fun _ => hrest
  · simp only [if_neg hfields]
    exact hrest

theorem charted_update (k : Kind) : Charted settings patience fun _ r => r.update k := by
  simp only [update_eq]
  refine (charted_recordedId k).bind fun id => ?_
  refine charted_resource.bind fun resource => ?_
  by_cases hseen : resource.seen.isEmpty = true
  · simp only [if_pos hseen]
    exact (charted_read k).bind fun _ => charted_amend k id
  · simp only [if_neg hseen]
    exact charted_amend k id

theorem charted_delete (k : Kind) : Charted settings patience fun _ r => r.delete k := by
  refine (charted_recordedId k).bind fun id => ?_
  exact (charted_send _).bind fun _ => charted_keep _

theorem charted_probe (k : Kind) : Charted settings patience fun _ r => r.probe k := by
  refine (charted_recordedId k).bind fun id => ?_
  refine charted_inWorld (.ask (.get k id) fun
    | .ok _ => .done (.ok true)
    | .error e => .done (if e.isNotFound then .ok false else .error (.fault e))) ?_
  intro σ store clock w
  simp only [Course.run]
  cases store.answer (.get k id) w with
  | mk reply w' => cases reply <;> rfl

theorem charted_adopt (k : Kind) (text : String) :
    Charted settings patience fun _ r => r.adopt k text := by
  refine (charted_require _).bind fun id => ?_
  refine (charted_keep _).bind fun _ => ?_
  refine (charted_read k).tryCatch fun stop => ?_
  exact (charted_keep _).bind fun _ => ⟨fun resource => .done (.error stop, resource),
    fun _ _ _ _ => rfl⟩

theorem charted_act (c : Command) : Charted settings patience fun _ r => r.act c := by
  cases c with
  | setDesired desired => exact charted_keep (·.setDesired desired)
  | commit => exact charted_keep Resource.commit
  | create k => exact charted_create k
  | read k => exact charted_read k
  | update k => exact charted_update k
  | delete k => exact charted_delete k
  | probe k => exact (charted_probe k).bind fun _ => charted_pure ()
  | adopt k text => exact charted_adopt k text

end Reconciler

end DesiredState
