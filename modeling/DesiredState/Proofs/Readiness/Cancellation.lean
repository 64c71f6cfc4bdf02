import DesiredState.Readiness.Script
import DesiredState.Proofs.Readiness.Journal

/-!
Cancelling a wait.
Up to the move it is cancelled in, a wait goes like one that cannot be
cancelled. There it ends: with what that move has decided, if it is a refresh
that decides, and with the cancellation otherwise.
-/
namespace DesiredState.Wait

variable {σ α : Type}

/-- The wait that cannot be cancelled. -/
def heedless (p : Wait σ α) : Wait σ α :=
  { p with clock := { p.clock with cancelled := fun _ => false } }

/-- What is cancelled stays cancelled. -/
def KeepsCancelled (p : Wait σ α) : Prop :=
  ∀ m : Move σ, p.clock.cancelled m.world = true → p.clock.cancelled (p.after m) = true

/-- The wait is cancelled while it makes a move. -/
def CancelledIn (p : Wait σ α) (m : Move σ) : Prop :=
  p.clock.cancelled m.world = false ∧ p.clock.cancelled (p.after m) = true

/-- A move is a refresh that decides the wait. -/
def Settles (p : Wait σ α) (start : Int) (m : Move σ) (result : Except Error α) : Prop :=
  ∃ v, m = .refresh v ∧ p.Decides start v result

/-- How a wait ends that is cancelled in a move. -/
inductive Breaks (p : Wait σ α) (start : Int) : Move σ → Except Stop α → Prop where
  | decided {v : σ} {result : Except Error α} (hdecides : p.Decides start v result) :
      p.Breaks start (.refresh v) (result.mapError .fault)
  | deferred {v : σ} (hdefers : p.Defers start v) :
      p.Breaks start (.refresh v) (.error (.fault (.cancelled p.goal.target)))
  | slept {d : Duration} {v : σ} :
      p.Breaks start (.sleep d v) (.error (.fault (.cancelled p.goal.target)))

theorem KeepsCancelled.free {p : Wait σ α} (h : p.KeepsCancelled) {m : Move σ}
    (hm : p.clock.cancelled (p.after m) = false) : p.clock.cancelled m.world = false := by
  cases hworld : p.clock.cancelled m.world with
  | false => rfl
  | true => exact (h m hworld).symm.trans hm

theorem decides_heedless {p : Wait σ α} {start : Int} {w : σ} {result : Except Error α} :
    p.heedless.Decides start w result ↔ p.Decides start w result :=
  ⟨fun h => h.congr rfl rfl rfl, fun h => h.congr rfl rfl rfl⟩

theorem Decides.unique {p : Wait σ α} {start : Int} {w : σ} {a b : Except Error α}
    (ha : p.Decides start w a) (hb : p.Decides start w b) : a = b := by
  have hround : p.heedless.round start p.backoff.least w = .done a (p.refresh w).2 :=
    round_of_decides rfl (decides_heedless.2 ha)
  rw [round_of_decides rfl (decides_heedless.2 hb)] at hround
  cases hround
  rfl

theorem Settles.breaks {p : Wait σ α} {start : Int} {m : Move σ} {result : Except Error α}
    (h : p.Settles start m result) : p.Breaks start m (result.mapError .fault) := by
  obtain ⟨v, rfl, hdecides⟩ := h
  exact .decided hdecides

theorem breaks_of_not_settles {p : Wait σ α} {start : Int} {m : Move σ}
    (h : ∀ result, ¬ p.Settles start m result) :
    p.Breaks start m (.error (.fault (.cancelled p.goal.target))) := by
  cases m with
  | sleep => exact .slept
  | refresh v =>
    rcases p.decides_or_defers start v with ⟨result, hdecides⟩ | hdefers
    · exact absurd ⟨v, rfl, hdecides⟩ (h result)
    · exact .deferred hdefers

section Walk

variable {p : Wait σ α} {start : Int} {limit : Nat} {delay : Duration} {w after : σ}
  {moves : List (Move σ)} {result : Except Stop α}

/-- No move begins once the wait is cancelled. -/
theorem Walk.free (h : p.Walk start limit delay w moves result after) :
    ∀ m ∈ moves, p.clock.cancelled m.world = false := by
  induction h with
  | spent | cancelled => exact List.forall_mem_nil _
  | decided hfree | interrupted hfree => exact List.forall_mem_singleton.2 hfree
  | again hfree _ hstill _ ih =>
    exact List.forall_mem_cons.2 ⟨hfree, List.forall_mem_cons.2 ⟨hstill, ih⟩⟩

theorem Walk.free_start (h : p.Walk start limit delay w moves result after) (hne : moves ≠ []) :
    p.clock.cancelled w = false := by
  cases h with
  | spent | cancelled => exact absurd rfl hne
  | decided hfree | interrupted hfree | again hfree => exact hfree

/-- A refresh that decides is the last move. -/
theorem Walk.settled (h : p.Walk start limit delay w moves result after)
    {earlier later : List (Move σ)} {m : Move σ} (hmoves : moves = earlier ++ m :: later)
    {decided : Except Error α} (hm : p.Settles start m decided) :
    later = [] ∧ result = decided.mapError .fault ∧ after = p.after m := by
  obtain ⟨v, rfl, hdecides⟩ := hm
  induction h generalizing earlier with
  | spent | cancelled => simp at hmoves
  | decided _ hfirst =>
    obtain ⟨-, hlast⟩ | ⟨-, hnone⟩ := List.append_eq_singleton_iff.1 hmoves.symm
    · cases hlast
      exact ⟨rfl, by rw [hdecides.unique hfirst], rfl⟩
    · cases hnone
  | interrupted _ hdefers =>
    obtain ⟨-, hlast⟩ | ⟨-, hnone⟩ := List.append_eq_singleton_iff.1 hmoves.symm
    · cases hlast
      exact absurd hdefers hdecides.not_defers
    · cases hnone
  | again _ hdefers _ _ ih =>
    -- neither the refresh of this round nor its sleep decides
    match earlier, hmoves with
    | [], hmoves =>
      cases hmoves
      exact absurd hdefers hdecides.not_defers
    | [_], hmoves => cases hmoves
    | _ :: _ :: _, hmoves => exact ih (List.cons.inj (List.cons.inj hmoves).2).2

/-- A wait that is never cancelled goes as one that cannot be. -/
theorem Walk.heeded (h : p.heedless.Walk start limit delay w moves result after)
    (hfree : p.clock.cancelled w = false)
    (hmoves : ∀ m ∈ moves, p.clock.cancelled (p.after m) = false) :
    p.Walk start limit delay w moves result after := by
  induction h with
  | spent => exact .spent
  | cancelled hcancelled | interrupted _ _ hcancelled => cases hcancelled
  | decided _ hdecides => exact .decided hfree (decides_heedless.1 hdecides)
  | again _ hdefers _ _ ih =>
    obtain ⟨hrefresh, hsleep, hrest⟩ : _ ∧ _ ∧ _ := by
      simpa only [List.forall_mem_cons] using hmoves
    exact .again hfree hdefers hrefresh (ih hsleep hrest)

/-- A wait that is cancelled in a move goes up to that move as one that cannot be. -/
theorem Walk.broken (h : p.heedless.Walk start limit delay w moves result after)
    (hkeeps : p.KeepsCancelled) {m : Move σ} (hm : m ∈ moves) (hin : p.CancelledIn m)
    {broken : Except Stop α} (hbreaks : p.Breaks start m broken) {more : Nat}
    (hmore : limit < more) :
    ∃ made, p.Walk start more delay w (made ++ [m]) broken (p.after m) := by
  induction h generalizing more with
  | spent => cases hm
  | cancelled hcancelled | interrupted _ _ hcancelled => cases hcancelled
  | decided _ hfirst =>
    obtain ⟨extra, rfl⟩ := Nat.exists_eq_add_of_lt hmore
    obtain rfl := List.mem_singleton.1 hm
    cases hbreaks with
    | decided hdecides => exact ⟨[], .decided hin.1 hdecides⟩
    | deferred hdefers => exact absurd hdefers (decides_heedless.1 hfirst).not_defers
  | @again _ _ w _ _ _ _ hdefers _ _ ih =>
    obtain ⟨more, rfl⟩ := Nat.exists_eq_succ_of_ne_zero (Nat.ne_zero_of_lt hmore)
    -- the wait is cancelled in the refresh of this round, in its sleep, or in a later round
    rcases List.mem_cons.1 hm with rfl | hm
    · cases hbreaks with
      | decided hdecides => exact absurd hdefers hdecides.not_defers
      | deferred => exact ⟨[], .interrupted hin.1 hdefers hin.2⟩
    rcases List.mem_cons.1 hm with rfl | hm
    · obtain ⟨more, rfl⟩ := Nat.exists_eq_succ_of_ne_zero
        (Nat.ne_zero_of_lt (Nat.lt_of_succ_lt_succ hmore))
      cases hbreaks
      have hfree : p.clock.cancelled w = false := hkeeps.free (m := .refresh w) hin.1
      exact ⟨[_], .again hfree hdefers hin.1 (.cancelled hin.2)⟩
    · obtain ⟨made, hlater⟩ := ih hm (Nat.lt_of_succ_lt_succ hmore)
      have hslept := hlater.free_start (List.append_ne_nil_of_right_ne_nil _ (List.cons_ne_nil _ _))
      have hstill : p.clock.cancelled (p.refresh w).2 = false :=
        hkeeps.free (m := .sleep _ _) hslept
      have hfree : p.clock.cancelled w = false := hkeeps.free (m := .refresh w) hstill
      exact ⟨_ :: _ :: made, .again hfree hdefers hstill hlater⟩

end Walk

/-- Cancelling is safe at every moment. Nothing begins once a wait is cancelled. The first refresh
that decides is the last move, and what it decides is the result, also if the wait is cancelled
meanwhile. A wait that is cancelled beforehand does nothing. One that is cancelled in a move, of
those it would make if it could not be, ends with the cancellation unless that move decides. One
that is never cancelled goes as if it could not be. -/
theorem cancellation_safe (p : Wait σ α) (hkeeps : p.KeepsCancelled) (w : σ) :
    (∀ limit, ∀ m ∈ p.moves limit w, p.clock.cancelled m.world = false) ∧
    (∀ limit earlier m later result, p.moves limit w = earlier ++ m :: later →
      p.Settles (p.clock.now w) m result →
      later = [] ∧ p.run limit w = (result.mapError .fault, p.after m)) ∧
    (p.clock.cancelled w = true → ∀ more,
      p.run (more + 1) w = (.error (.fault (.cancelled p.goal.target)), w)) ∧
    (∀ limit, ∀ m ∈ p.heedless.moves limit w, p.CancelledIn m → ∀ more, limit < more →
      (∀ result, p.Settles (p.clock.now w) m result →
        p.run more w = (result.mapError .fault, p.after m)) ∧
      ((∀ result, ¬ p.Settles (p.clock.now w) m result) →
        p.run more w = (.error (.fault (.cancelled p.goal.target)), p.after m))) ∧
    (p.clock.cancelled w = false → ∀ limit,
      (∀ m ∈ p.heedless.moves limit w, p.clock.cancelled (p.after m) = false) →
      p.run limit w = p.heedless.run limit w ∧ p.moves limit w = p.heedless.moves limit w) := by
  refine ⟨fun limit => (p.walk_run limit w).free, ?_, ?_, ?_, ?_⟩
  · intro limit earlier m later result hmoves hm
    obtain ⟨hlast, hresult, hafter⟩ := (p.walk_run limit w).settled hmoves hm
    exact ⟨hlast, Prod.ext hresult hafter⟩
  · intro hcancelled more
    exact (Walk.cancelled hcancelled).rounds_eq
  · intro limit m hm hin more hmore
    have hwalk := p.heedless.walk_run limit w
    constructor
    · intro result hsettles
      obtain ⟨made, hbroken⟩ := hwalk.broken hkeeps hm hin hsettles.breaks hmore
      exact hbroken.rounds_eq
    · intro hnone
      obtain ⟨made, hbroken⟩ := hwalk.broken hkeeps hm hin (breaks_of_not_settles hnone) hmore
      exact hbroken.rounds_eq
  · intro hfree limit hmoves
    exact ((p.heedless.walk_run limit w).heeded hfree hmoves).run_eq

theorem keepsCancelled_script (goal : Goal) (backoff : Backoff) :
    (Script.wait goal backoff).KeepsCancelled := by
  rintro (w | ⟨d, w⟩) hcancelled
  · change w.cancelled = true at hcancelled
    change (Script.refresh w).2.cancelled = true
    unfold Script.refresh
    split <;> simp [hcancelled]
  · change w.cancelled = true at hcancelled
    change (w.cancelled || _) = true
    rw [hcancelled, Bool.true_or]

/-- A wait for one replica. -/
def scriptedWait : Wait Script.World Nat :=
  Script.wait ⟨["0"], "1", .ofSeconds 1⟩ ⟨.ofMilliseconds 100, .ofMilliseconds 400⟩

/-- A replica that is ready when it is looked for the second time, long after the deadline. -/
def readyWorld (cancellation : Script.Cancellation) : Script.World :=
  .start [⟨0, .ok "0"⟩, ⟨2000, .ok "1"⟩] cancellation (.ok [])

/-- Cancelled while it looks for the second time, the wait still ends with what it has found;
cancelled in the sleep before, it ends with the cancellation. -/
theorem cancellation_safe_scripted :
    scriptedWait.KeepsCancelled ∧
    (scriptedWait.run 3 (readyWorld ⟨false, some 2, none⟩)).1 = .ok 2 ∧
    (scriptedWait.run 3 (readyWorld ⟨false, none, some 1⟩)).1 =
      .error (.fault (.cancelled "1")) := by
  have hkeeps := keepsCancelled_script ⟨["0"], "1", .ofSeconds 1⟩
    ⟨.ofMilliseconds 100, .ofMilliseconds 400⟩
  refine ⟨hkeeps, ?_, ?_⟩
  · obtain ⟨-, -, -, hin, -⟩ :=
      cancellation_safe scriptedWait hkeeps (readyWorld ⟨false, some 2, none⟩)
    obtain ⟨hsettled, -⟩ := hin 2 _ (List.mem_of_getElem? (i := 2) rfl) ⟨rfl, rfl⟩ 3 (by decide)
    exact congrArg Prod.fst (hsettled (.ok 2) ⟨_, rfl, .reached rfl⟩)
  · obtain ⟨-, -, -, hin, -⟩ :=
      cancellation_safe scriptedWait hkeeps (readyWorld ⟨false, none, some 1⟩)
    obtain ⟨-, hdeferred⟩ := hin 2 _ (List.mem_of_getElem? (i := 1) rfl) ⟨rfl, rfl⟩ 3 (by decide)
    refine congrArg Prod.fst (hdeferred ?_)
    rintro result ⟨v, hmove, -⟩
    cases hmove

end DesiredState.Wait
