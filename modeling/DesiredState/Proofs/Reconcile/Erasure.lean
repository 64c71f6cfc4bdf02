import DesiredState.Proofs.Reconcile.Course

/-!
Worlds that carry more than a reconciliation needs.
A reconciler may act on a larger world, of which another one sees a part. As
long as their stores and clocks agree on that part, all that is done to a
resource comes out the same. In particular a chronicle changes nothing, and
what a store and a clock keep in the world is kept by every operation.
-/
namespace DesiredState

variable {σ τ α β : Type} {part : τ → σ}

/-- On the part of its world that the other one acts on, a reconciler does the same. -/
structure Reconciler.Extends (r : Reconciler τ) (q : Reconciler σ) (part : τ → σ) : Prop where
  answer : ∀ request w, q.store.answer request (part w) =
    ((r.store.answer request w).1, part (r.store.answer request w).2)
  now : ∀ w, q.clock.now (part w) = r.clock.now w
  sleep : ∀ d w, q.clock.sleep d (part w) = part (r.clock.sleep d w)
  cancelled : ∀ w, q.clock.cancelled (part w) = r.clock.cancelled w
  settings : q.settings = r.settings
  patience : q.patience = r.patience

/-- The session on a part of the world. -/
def Session.on (part : τ → σ) (s : Session τ) : Session σ := ⟨s.resource, part s.world⟩

/-- On a part of the world the second operation is the first one. -/
def Operation.Agrees (part : τ → σ) (m : Operation τ α) (n : Operation σ α) : Prop :=
  ∀ s, n.perform (s.on part) = ((m.perform s).1, (m.perform s).2.on part)

/-- On a part of the world a course comes to the same. -/
theorem Course.run_on {r : Reconciler τ} {q : Reconciler σ} (h : r.Extends q part)
    (course : Course α) (w : τ) :
    course.run q.store q.clock (part w) =
      ((course.run r.store r.clock w).1, part (course.run r.store r.clock w).2) := by
  induction course generalizing w with
  | done a => rfl
  | ask request next ih => simp only [run, h.answer, ih]
  | look next ih => simp only [run, h.now, ih]
  | heed next ih => simp only [run, h.cancelled, ih]
  | sleep d next ih => simp only [run, h.sleep, ih]

/-- What is kept by every answer and every sleep is kept by a course. -/
theorem Course.keeps_run {q : Reconciler σ} {P : σ → Prop}
    (hanswer : ∀ request w, P w → P (q.store.answer request w).2)
    (hsleep : ∀ d w, P w → P (q.clock.sleep d w)) (course : Course α) {w : σ} (hw : P w) :
    P (course.run q.store q.clock w).2 := by
  induction course generalizing w with
  | done a => exact hw
  | ask request next ih => exact ih _ (hanswer request w hw)
  | look next ih => exact ih _ hw
  | heed next ih => exact ih _ hw
  | sleep d next ih => exact ih (hsleep d w hw)

namespace Reconciler

open Operation

/-- What follows a course comes out the same on a part of the world. -/
theorem Extends.agrees {r : Reconciler τ} {q : Reconciler σ} (h : r.Extends q part)
    {m : ∀ σ, Reconciler σ → Operation σ α} (hm : Charted q.settings q.patience m) :
    Agrees part (m τ r) (m σ q) := by
  obtain ⟨course, hcourse⟩ := hm
  intro s
  have hpart := hcourse σ q.store q.clock (s.on part)
  have hwhole := hcourse τ r.store r.clock s
  rw [h.settings, h.patience] at hwhole
  rw [hpart, hwhole]
  simp only [Session.on, Course.run_on h]

theorem Extends.run {r : Reconciler τ} {q : Reconciler σ} (h : r.Extends q part) (k : Kind)
    (id : ObjectId) (goal : Goal) (w : τ) :
    (q.readinessWait k id goal).run q.patience (part w) =
      (((r.readinessWait k id goal).run r.patience w).1,
        part ((r.readinessWait k id goal).run r.patience w).2) := by
  rw [q.wait_run, r.wait_run, ← h.settings, ← h.patience, Course.run_on h]

/-- Keeping a chronicle changes nothing. -/
theorem extends_chronicled (q : Reconciler σ) : q.chronicled.Extends q Chronicle.state where
  answer _ _ := rfl
  now _ := rfl
  sleep _ _ := rfl
  cancelled _ := rfl
  settings := rfl
  patience := rfl

/-- What an account tells of is what the command leads to without one. -/
theorem perform_act_eq_account (q : Reconciler σ) (c : Command) (resource : Resource) (state : σ) :
    (q.act c).perform ⟨resource, state⟩ =
      ((q.account c resource state).1, (q.account c resource state).2.on Chronicle.state) :=
  q.extends_chronicled.agrees (charted_act c) ⟨resource, ⟨state, []⟩⟩

/-- An operation changes the world through the store and the clock of a reconciler alone: it keeps
what they keep. -/
def ActsThrough (q : Reconciler σ) (m : Operation σ α) : Prop :=
  ∀ P : σ → Prop, (∀ request w, P w → P (q.store.answer request w).2) →
    (∀ d w, P w → P (q.clock.sleep d w)) → ∀ s, P s.world → P (m.perform s).2.world

theorem actsThrough_of_charted (q : Reconciler σ) {m : ∀ σ, Reconciler σ → Operation σ α}
    (hm : Charted q.settings q.patience m) : q.ActsThrough (m σ q) := by
  obtain ⟨course, hcourse⟩ := hm
  intro P hanswer hsleep s hs
  have hrun := hcourse σ q.store q.clock s
  rw [hrun]
  exact (course s.resource).keeps_run hanswer hsleep hs

theorem actsThrough_create (q : Reconciler σ) (k : Kind) : q.ActsThrough (q.create k) :=
  q.actsThrough_of_charted (charted_create k)

theorem actsThrough_awaitReady (q : Reconciler σ) {k : Kind} (id : ObjectId) (created : Object k) :
    q.ActsThrough (q.awaitReady id created) :=
  q.actsThrough_of_charted (charted_awaitReady id created)

theorem actsThrough_act (q : Reconciler σ) (c : Command) : q.ActsThrough (q.act c) :=
  q.actsThrough_of_charted (charted_act c)

/-- What each step keeps of the exchanges that were added and of the state holds after an
operation. -/
theorem ActsThrough.exists_added {q : Reconciler σ} {m : Operation (Chronicle σ) α}
    (hm : q.chronicled.ActsThrough m) {R : List Exchange → σ → Prop}
    (hanswer : ∀ request state added, R added state →
      R (⟨request, (q.store.answer request state).1⟩ :: added) (q.store.answer request state).2)
    (hsleep : ∀ d state added, R added state → R added (q.clock.sleep d state))
    (before : Resource) (world : Chronicle σ) (hworld : R [] world.state) :
    ∃ added, (m.perform ⟨before, world⟩).2.world.exchanges = added ++ world.exchanges ∧
      R added (m.perform ⟨before, world⟩).2.world.state := by
  refine hm (fun w => ∃ added, w.exchanges = added ++ world.exchanges ∧ R added w.state) ?_ ?_
    ⟨before, world⟩ ⟨[], rfl, hworld⟩
  · rintro request w ⟨added, hadded, hkept⟩
    exact ⟨_ :: added, congrArg (_ :: ·) hadded, hanswer request w.state added hkept⟩
  · rintro d w ⟨added, hadded, hkept⟩
    exact ⟨added, hadded, hsleep d w.state added hkept⟩

/-- What the exchanges of an operation keep of the state is kept by it, unless by its sleeping. -/
theorem ActsThrough.keeps {q : Reconciler σ} {m : Operation (Chronicle σ) α}
    (hm : q.chronicled.ActsThrough m) {C : Exchange → Prop} {Q : σ → Prop}
    (hanswer : ∀ request state, C ⟨request, (q.store.answer request state).1⟩ → Q state →
      Q (q.store.answer request state).2)
    (hsleep : ∀ d state, Q state → Q (q.clock.sleep d state)) {before : Resource}
    (h : m.Ensures before fun _ made _ => ∀ x ∈ made, C x) (world : Chronicle σ)
    (hworld : Q world.state) : Q (m.perform ⟨before, world⟩).2.world.state := by
  obtain ⟨made, hmade, hall⟩ := h world
  -- The property holds as long as the exchanges that were added are such ones.
  obtain ⟨added, hadded, hkept⟩ := hm.exists_added
    (R := fun added state => (∀ x ∈ added, C x) → Q state)
    (fun request state added hkept hadded =>
      have ⟨hfirst, hrest⟩ := List.forall_mem_cons.1 hadded
      hanswer request state hfirst (hkept hrest))
    (fun d state added hkept hadded => hsleep d state (hkept hadded))
    before world (fun _ => hworld)
  rw [hmade] at hadded
  rw [List.append_cancel_right hadded] at hall
  exact hkept hall

/-- What holds of each answer of the store holds of each exchange of an operation. -/
theorem ActsThrough.ensures_answered {q : Reconciler σ} {m : Operation (Chronicle σ) α}
    (hm : q.chronicled.ActsThrough m) {C : Exchange → Prop}
    (hstore : ∀ request state, C ⟨request, (q.store.answer request state).1⟩) {before : Resource}
    {post : Except Stop α → List Exchange → Resource → Prop} (h : m.Ensures before post) :
    m.Ensures before fun result made after => post result made after ∧ ∀ x ∈ made, C x := by
  intro world
  obtain ⟨made, hmade, hpost⟩ := h world
  refine ⟨made, hmade, hpost, ?_⟩
  obtain ⟨added, hadded, hall⟩ := hm.exists_added (R := fun added _ => ∀ x ∈ added, C x)
    (fun request state _ hall => List.forall_mem_cons.2 ⟨hstore request state, hall⟩)
    (fun _ _ _ hall => hall) before world (fun _ hx => absurd hx List.not_mem_nil)
  rw [hmade] at hadded
  rw [List.append_cancel_right hadded]
  exact hall

end Reconciler

end DesiredState
