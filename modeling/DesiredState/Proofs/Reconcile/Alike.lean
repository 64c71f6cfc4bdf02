import DesiredState.Proofs.Reconcile.Erasure

/-!
Worlds that are alike to an operation.
An operation sees no more of a world than the replies to its requests and the
time that has passed since it began to wait. Where these are the same, so is all
that it comes to.
-/
namespace DesiredState

open Operation

variable {σ α : Type}

/-- Worlds that are alike answer the requests of a class alike, and stay so. -/
structure Reconciler.Alike (r q : Reconciler σ) (C : Request → Prop) (R : σ → σ → Prop) : Prop where
  answer : ∀ request w v, C request → R w v →
    (q.store.answer request v).1 = (r.store.answer request w).1 ∧
      R (r.store.answer request w).2 (q.store.answer request v).2
  now : ∀ w v, R w v → q.clock.now v = r.clock.now w
  sleep : ∀ d w v, R w v → R (r.clock.sleep d w) (q.clock.sleep d v)
  cancelled : ∀ w v, R w v → q.clock.cancelled v = r.clock.cancelled w
  settings : q.settings = r.settings
  patience : q.patience = r.patience

/-- A chronicle only grows. -/
theorem Course.exists_made (r : Reconciler σ) (course : Course α) (world : Chronicle σ) :
    ∃ made, (course.run r.chronicled.store r.chronicled.clock world).2.exchanges =
      made ++ world.exchanges := by
  refine course.keeps_run (q := r.chronicled)
    (P := fun w => ∃ made, w.exchanges = made ++ world.exchanges) ?_ ?_ ⟨[], rfl⟩
  · rintro request w ⟨made, hmade⟩
    exact ⟨_ :: made, congrArg (_ :: ·) hmade⟩
  · rintro d w ⟨made, hmade⟩
    exact ⟨made, hmade⟩

/-- A course comes to the same in worlds that are alike, if it makes no other requests. -/
theorem Course.run_alike {r q : Reconciler σ} {C : Request → Prop} {R : σ → σ → Prop}
    (h : r.Alike q C R) (course : Course α) {w v : σ} (hw : R w v) (log : List Exchange) :
    ∃ made, (course.run r.chronicled.store r.chronicled.clock ⟨w, log⟩).2.exchanges =
        made ++ log ∧
      ((∀ x ∈ made, C x.request) →
        (course.run q.store q.clock v).1 = (course.run r.store r.clock w).1 ∧
          R (course.run r.store r.clock w).2 (course.run q.store q.clock v).2) := by
  induction course generalizing w v log with
  | done a => exact ⟨[], rfl, fun _ => ⟨rfl, hw⟩⟩
  | ask request next ih =>
    let x : Exchange := ⟨request, (r.store.answer request w).1⟩
    by_cases hrequest : C request
    · obtain ⟨hreply, hafter⟩ := h.answer request w v hrequest hw
      obtain ⟨made, hmade, hsame⟩ := ih (r.store.answer request w).1 hafter (x :: log)
      refine ⟨made ++ [x], by rw [List.append_assoc]; exact hmade, fun hall => ?_⟩
      simp only [run, hreply]
      exact hsame (List.forall_mem_append.1 hall).1
    · obtain ⟨made, hmade⟩ := (next (r.store.answer request w).1).exists_made r
        ⟨(r.store.answer request w).2, x :: log⟩
      exact ⟨made ++ [x], by rw [List.append_assoc]; exact hmade,
        fun hall => absurd (hall x (by simp)) hrequest⟩
  | look next ih =>
    obtain ⟨made, hmade, hsame⟩ := ih (r.clock.now w) hw log
    refine ⟨made, hmade, fun hall => ?_⟩
    simp only [run, h.now w v hw]
    exact hsame hall
  | heed next ih =>
    obtain ⟨made, hmade, hsame⟩ := ih (r.clock.cancelled w) hw log
    refine ⟨made, hmade, fun hall => ?_⟩
    simp only [run, h.cancelled w v hw]
    exact hsame hall
  | sleep d next ih => exact ih (h.sleep d w v hw) log

/-- An operation comes to the same in worlds that are alike, if it makes no other requests. -/
theorem Reconciler.Alike.perform {r q : Reconciler σ} {C : Request → Prop} {R : σ → σ → Prop}
    (h : r.Alike q C R) {m : ∀ σ, Reconciler σ → Operation σ α}
    (hm : Charted r.settings r.patience m) {before : Resource}
    (hmade : (m _ r.chronicled).Ensures before fun _ made _ => ∀ x ∈ made, C x.request)
    {w v : σ} (hw : R w v) :
    ((m σ q).perform ⟨before, v⟩).1 = ((m σ r).perform ⟨before, w⟩).1 ∧
      ((m σ q).perform ⟨before, v⟩).2.resource = ((m σ r).perform ⟨before, w⟩).2.resource ∧
      R ((m σ r).perform ⟨before, w⟩).2.world ((m σ q).perform ⟨before, v⟩).2.world := by
  obtain ⟨course, hcourse⟩ := hm
  have hr := hcourse σ r.store r.clock ⟨before, w⟩
  have hq := hcourse σ q.store q.clock ⟨before, v⟩
  have hchronicled := hcourse _ r.chronicled.store r.chronicled.clock ⟨before, ⟨w, []⟩⟩
  rw [← h.settings, ← h.patience] at hq
  obtain ⟨made, hexchanges, hsame⟩ := Course.run_alike h (course before) hw []
  obtain ⟨made', hexchanges', hall⟩ := hmade ⟨w, []⟩
  have hlog := congrArg (fun run => run.2.world.exchanges) hchronicled
  have heq : made' = made := by
    have hboth := hexchanges'.symm.trans (hlog.trans hexchanges)
    exact List.append_cancel_right hboth
  obtain ⟨hresult, hafter⟩ := hsame (heq ▸ hall)
  rw [hr, hq]
  exact ⟨congrArg (·.1) hresult, congrArg (·.2) hresult, hafter⟩

section Time

/-- The clock that is ahead by so many nanoseconds. -/
def Clock.ahead (clock : Clock σ) (k : Int) : Clock σ :=
  { clock with now := fun w => clock.now w + k }

theorem Duration.between_add (start stop k : Int) :
    Duration.between (start + k) (stop + k) = Duration.between start stop := by
  rw [between, between, Int.add_sub_add_right]

/-- Only the time that has passed since its start counts for a wait. -/
theorem Wait.rounds_ahead (p : Wait σ α) (k start : Int) (limit : Nat) (delay : Duration) (w : σ) :
    ({ p with clock := p.clock.ahead k } : Wait σ α).rounds (start + k) limit delay w =
      p.rounds start limit delay w := by
  induction limit generalizing delay w with
  | zero => rfl
  | succ more ih =>
    have hround : ({ p with clock := p.clock.ahead k } : Wait σ α).round (start + k) delay w =
        p.round start delay w := by
      simp only [round, Clock.ahead, Duration.between_add]
      rfl
    rw [rounds, rounds, hround]
    cases p.round start delay w with
    | again longer w' => exact ih longer w'
    | done result w' => rfl

variable (r : Reconciler σ) (k : Int)

theorem Reconciler.awaitReady_ahead {kind : Kind} (id : ObjectId) (created : Object kind) :
    ({ r with clock := r.clock.ahead k } : Reconciler σ).awaitReady id created =
      r.awaitReady id created := by
  have hrun : ∀ goal limit w,
      (({ r with clock := r.clock.ahead k } : Reconciler σ).readinessWait kind id goal).run
          limit w =
        (r.readinessWait kind id goal).run limit w :=
    fun goal limit w => (r.readinessWait kind id goal).rounds_ahead k _ limit _ w
  have hexplained : ∀ goal query warningLimit limit,
      (({ r with clock := r.clock.ahead k } : Reconciler σ).readinessWait kind id
        goal).runExplained query warningLimit limit =
        (r.readinessWait kind id goal).runExplained query warningLimit limit := by
    intro goal query warningLimit limit
    funext w
    rw [Wait.runExplained, Wait.runExplained, hrun]
  simp only [awaitReady, hexplained]

theorem Reconciler.act_ahead (c : Command) :
    ({ r with clock := r.clock.ahead k } : Reconciler σ).act c = r.act c := by
  cases c with
  | create kind =>
    have htaken : ({ r with clock := r.clock.ahead k } : Reconciler σ).takeOver kind =
        r.takeOver kind := by
      funext reply
      simp only [takeOver, awaitReady_ahead]
      rfl
    simp only [act, create_eq, htaken]
  | _ => rfl

end Time

end DesiredState
