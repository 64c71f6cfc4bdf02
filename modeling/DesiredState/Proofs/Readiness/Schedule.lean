import DesiredState.Proofs.Readiness.Journal
import Mathlib.Algebra.Group.Nat.Defs
import Mathlib.Logic.Function.Iterate

/-!
The schedule of the sleeps of a wait.
Delays double from the least one up to the greatest, and a sleep is cut at the
deadline. So a wait that sees nothing but pending labels, on a clock that moves
by its sleeps alone, ends just at the deadline, unless it never sleeps at all
before it.
-/
namespace DesiredState

variable {σ α : Type}

namespace Backoff

variable (b : Backoff)

/-- The delays in closed form: no doubling is lost to the bound on durations. -/
theorem nanoseconds_iterate_next (k : Nat) :
    (b.next^[k] b.least).nanoseconds =
      min (b.least.nanoseconds * 2 ^ k) (max b.least.nanoseconds b.greatest.nanoseconds) := by
  induction k with
  | zero =>
    rw [Nat.pow_zero, Nat.mul_one, Nat.min_eq_left (Nat.le_max_left _ _)]
    rfl
  | succ k ih =>
    have hleast := b.least.le_max
    have hgreatest := b.greatest.le_max
    rw [Function.iterate_succ_apply', nanoseconds_next, ih, Nat.pow_succ, ← Nat.mul_assoc]
    have hgrown : b.least.nanoseconds ≤ b.least.nanoseconds * 2 ^ k :=
      Nat.le_mul_of_pos_right _ (Nat.two_pow_pos k)
    omega

theorem nanoseconds_least_le_next (delay : Duration) :
    b.least.nanoseconds ≤ (b.next delay).nanoseconds := by
  rw [nanoseconds_next]
  omega

theorem nanoseconds_next_eq_zero {delay : Duration} (hleast : b.least.nanoseconds = 0)
    (hdelay : delay.nanoseconds = 0) : (b.next delay).nanoseconds = 0 := by
  rw [nanoseconds_next, hleast, hdelay]
  omega

end Backoff

/-- The time since a start that lies so long back, if it is no longer than a duration. -/
theorem Duration.between_add_of_le {start : Int} {e : Nat} {bound : Duration}
    (h : e ≤ bound.nanoseconds) : (Duration.between start (start + e)).nanoseconds = e := by
  have hbound := bound.le_max
  rw [between, nanoseconds_saturating]
  omega

namespace Wait

variable {p : Wait σ α}

/-- How long each sleep lasts, and the world it begins in. -/
def sleeps (p : Wait σ α) (limit : Nat) (w : σ) : List (Duration × σ) :=
  (p.moves limit w).filterMap Move.sleep?

/-- Each sleep lasts as long as its delay or as the time that is left, which is the shorter. -/
theorem Walk.sleep_eq {start : Int} {limit : Nat} {delay : Duration} {w after : σ}
    {moves : List (Move σ)} {result : Except Stop α}
    (h : p.Walk start limit delay w moves result after) {k : Nat} {d : Duration} {v : σ}
    (hk : (moves.filterMap Move.sleep?)[k]? = some (d, v)) :
    Duration.between start (p.clock.now v) < p.goal.timeout ∧
      d = (p.backoff.next^[k] delay).least
        (p.goal.timeout.minus (.between start (p.clock.now v))) := by
  induction h generalizing k with
  | spent | cancelled | decided | interrupted => cases hk
  | again hfree hdefers hstill hlater ih =>
    cases k with
    | zero =>
      cases hk
      exact ⟨hdefers.2, rfl⟩
    | succ k => exact ih hk

/-- Nothing comes up in a move: a refresh shows a label on its way and takes no time, a sleep takes
just its length, and nobody cancels meanwhile. -/
def Idles (p : Wait σ α) (m : Move σ) : Prop :=
  p.clock.cancelled (p.after m) = false ∧
    match m with
    | .refresh w => (∃ label, p.Shows w label) ∧ p.clock.now (p.refresh w).2 = p.clock.now w
    | .sleep d w => p.clock.now (p.clock.sleep d w) = p.clock.now w + d.nanoseconds

/-- Nothing ever comes up in the moves of a wait. -/
structure Stalls (p : Wait σ α) (w : σ) : Prop where
  free : p.clock.cancelled w = false
  idles : ∀ limit, ∀ m ∈ p.moves limit w, p.Idles m

section Stalled

variable {start : Int} {limit e : Nat} {delay : Duration} {w after : σ} {moves : List (Move σ)}
  {result : Except Stop α}

theorem Idles.elapsed_eq (h : p.Idles (.refresh w)) (hnow : p.clock.now w = start + e)
    (he : e ≤ p.goal.timeout.nanoseconds) : (p.elapsed start w).nanoseconds = e := by
  rw [elapsed, h.2.2, hnow, Duration.between_add_of_le he]

/-- A round in which nothing comes up takes as long as it sleeps, and not beyond the deadline. -/
theorem Idles.now_eq (h : p.Idles (.refresh w))
    (hsleep : p.Idles (.sleep (p.pause start delay w) (p.refresh w).2))
    (hnow : p.clock.now w = start + e) (he : e ≤ p.goal.timeout.nanoseconds) :
    p.clock.now (p.clock.sleep (p.pause start delay w) (p.refresh w).2) =
      start + (e + min delay.nanoseconds (p.goal.timeout.nanoseconds - e) : Nat) := by
  rw [hsleep.2, h.2.2, hnow, pause, Duration.nanoseconds_least,
    Duration.nanoseconds_minus, h.elapsed_eq hnow he]
  omega

/-- A wait in which nothing comes up can only end at the deadline. -/
theorem Walk.stalled (h : p.Walk start limit delay w moves result after)
    (hfree : p.clock.cancelled w = false) (hidles : ∀ m ∈ moves, p.Idles m)
    (hnow : p.clock.now w = start + e) (he : e ≤ p.goal.timeout.nanoseconds) :
    result = .error .undecided ∨ ∃ label, result =
      .error (.fault (.timeout p.goal.target (some label) p.goal.timeout "")) := by
  induction h generalizing e with
  | spent => exact .inl rfl
  | cancelled hcancelled => cases hcancelled.symm.trans hfree
  | @decided _ _ w _ _ hdecides =>
    have hidle := hidles _ List.mem_cons_self
    have helapsed := hidle.elapsed_eq hnow he
    obtain ⟨label, hshows⟩ := hidle.2.1
    obtain ⟨hlate, rfl⟩ := hdecides.late_of_shows hshows
    have hdeadline : p.elapsed start w = p.goal.timeout :=
      Duration.ext (helapsed.trans (Nat.le_antisymm he (helapsed ▸ hlate)))
    rw [hdeadline]
    exact .inr ⟨label, rfl⟩
  | interrupted _ _ hcancelled => cases hcancelled.symm.trans (hidles _ List.mem_cons_self).1
  | again _ hdefers hstill hlater ih =>
    obtain ⟨hrefresh, hsleep, hrest⟩ : _ ∧ _ ∧ _ := by
      simpa only [List.forall_mem_cons] using hidles
    refine ih hsleep.1 hrest (hrefresh.now_eq hsleep hnow he) ?_
    omega

/-- As long as a wait with nothing coming up is undecided, its sleeps use up the time that is
left. -/
theorem Walk.limit_le (h : p.Walk start limit delay w moves (.error .undecided) after)
    (hidles : ∀ m ∈ moves, p.Idles m) (hnow : p.clock.now w = start + e)
    (he : e ≤ p.goal.timeout.nanoseconds)
    (hdelay : 0 < p.backoff.least.nanoseconds ∧ 0 < delay.nanoseconds ∨
      p.goal.timeout.nanoseconds = 0) :
    limit ≤ p.goal.timeout.nanoseconds - e + 1 := by
  generalize hresult : (.error .undecided : Except Stop α) = result at h
  induction h generalizing e with
  | spent => omega
  | cancelled | interrupted => cases hresult
  | @decided _ _ _ result => cases result <;> cases hresult
  | @again more delay w _ _ _ _ hdefers hstill hlater ih =>
    obtain ⟨hrefresh, hsleep, hrest⟩ : _ ∧ _ ∧ _ := by
      simpa only [List.forall_mem_cons] using hidles
    have hearly : e < p.goal.timeout.nanoseconds := hrefresh.elapsed_eq hnow he ▸ hdefers.2
    have hnext := p.backoff.nanoseconds_least_le_next delay
    have hbound := ih hrest (hrefresh.now_eq hsleep hnow he) (by omega) (by omega) hresult
    omega

/-- Without delays a wait with nothing coming up does not get on before the deadline. -/
theorem Walk.undecided (h : p.Walk start limit delay w moves result after)
    (hfree : p.clock.cancelled w = false) (hidles : ∀ m ∈ moves, p.Idles m)
    (hnow : p.clock.now w = start + e) (he : e < p.goal.timeout.nanoseconds)
    (hdelay : delay.nanoseconds = 0) (hleast : p.backoff.least.nanoseconds = 0) :
    result = .error .undecided := by
  induction h with
  | spent => rfl
  | cancelled hcancelled => cases hcancelled.symm.trans hfree
  | decided _ hdecides =>
    have hidle := hidles _ List.mem_cons_self
    have helapsed := hidle.elapsed_eq hnow (Nat.le_of_lt he)
    obtain ⟨label, hshows⟩ := hidle.2.1
    have hlate := (hdecides.late_of_shows hshows).1
    exact absurd (helapsed ▸ hlate : p.goal.timeout.nanoseconds ≤ e) (Nat.not_le_of_lt he)
  | interrupted _ _ hcancelled => cases hcancelled.symm.trans (hidles _ List.mem_cons_self).1
  | again _ hdefers hstill hlater ih =>
    obtain ⟨hrefresh, hsleep, hrest⟩ : _ ∧ _ ∧ _ := by
      simpa only [List.forall_mem_cons] using hidles
    have hstands := hrefresh.now_eq hsleep hnow (Nat.le_of_lt he)
    rw [hdelay, Nat.zero_min, Nat.add_zero] at hstands
    exact ih hsleep.1 hrest hstands (p.backoff.nanoseconds_next_eq_zero hleast hdelay)

end Stalled

/-- The sleeps of a wait double from the least delay up to the greatest and are cut at the deadline,
which none begins after; the lengths told here are of naturals without bound. If nothing comes up,
the wait ends unless it has no delay before a deadline, and it ends just at the deadline. -/
theorem sleeps_scheduled (p : Wait σ α) (w : σ) :
    (∀ limit k d v, (p.sleeps limit w)[k]? = some (d, v) →
      let elapsed := Duration.between (p.clock.now w) (p.clock.now v)
      elapsed < p.goal.timeout ∧
      d.nanoseconds =
        min (min (p.backoff.least.nanoseconds * 2 ^ k)
            (max p.backoff.least.nanoseconds p.backoff.greatest.nanoseconds))
          (p.goal.timeout.nanoseconds - elapsed.nanoseconds) ∧
      elapsed.nanoseconds + d.nanoseconds ≤ p.goal.timeout.nanoseconds) ∧
    (p.Stalls w →
      ((∃ limit, (p.run limit w).1 ≠ .error .undecided) ↔
        0 < p.backoff.least.nanoseconds ∨ p.goal.timeout.nanoseconds = 0) ∧
      ∀ limit, (p.run limit w).1 ≠ .error .undecided → ∃ label, (p.run limit w).1 =
        .error (.fault (.timeout p.goal.target (some label) p.goal.timeout ""))) := by
  refine ⟨fun limit k d v hk => ?_, fun hstalls => ⟨⟨?_, ?_⟩, fun limit hdecided => ?_⟩⟩
  · obtain ⟨hearly, rfl⟩ := (p.walk_run limit w).sleep_eq hk
    rw [Duration.nanoseconds_least, p.backoff.nanoseconds_iterate_next, Duration.nanoseconds_minus]
    have hbefore : (Duration.between (p.clock.now w) (p.clock.now v)).nanoseconds <
        p.goal.timeout.nanoseconds := hearly
    exact ⟨hearly, rfl, by omega⟩
  · rintro ⟨limit, hdecided⟩
    by_contra hnever
    obtain ⟨hleast, htimeout⟩ := not_or.1 hnever
    exact hdecided ((p.walk_run limit w).undecided hstalls.free (hstalls.idles limit)
      (Int.add_zero _).symm (Nat.pos_of_ne_zero htimeout) (Nat.eq_zero_of_not_pos hleast)
      (Nat.eq_zero_of_not_pos hleast))
  · intro hends
    refine ⟨p.goal.timeout.nanoseconds + 2, fun hundecided => ?_⟩
    have hwalk := p.walk_run (p.goal.timeout.nanoseconds + 2) w
    rw [hundecided] at hwalk
    have hbound := hwalk.limit_le (hstalls.idles _) (Int.add_zero _).symm (Nat.zero_le _)
      (hends.imp_left fun hleast => ⟨hleast, hleast⟩)
    omega
  · have hended := (p.walk_run limit w).stalled hstalls.free (hstalls.idles limit)
      (Int.add_zero _).symm (Nat.zero_le _)
    exact hended.resolve_left hdecided

/-- A wait for a replica that never gets ready, in a world that is a clock. -/
def stalledWait : Wait Int Unit where
  clock := ⟨id, fun d time => time + d.nanoseconds, fun _ => false⟩
  goal := ⟨["0"], "1", .ofSeconds 1⟩
  backoff := ⟨.ofMilliseconds 100, .ofMilliseconds 400⟩
  refresh time := (.ok ((), "0"), time)

/-- The fourth sleep is cut at the deadline. -/
theorem sleeps_scheduled_stalled :
    stalledWait.Stalls 0 ∧
    (stalledWait.sleeps 5 0)[3]? = some (.ofMilliseconds 300, 700000000) ∧
    (Duration.ofMilliseconds 300).nanoseconds =
      min (min (100000000 * 2 ^ 3) (max 100000000 400000000)) (1000000000 - 700000000) ∧
    ∃ limit label, (stalledWait.run limit 0).1 =
      .error (.fault (.timeout "1" (some label) (.ofSeconds 1) "")) := by
  have hstalls : stalledWait.Stalls 0 := by
    refine ⟨rfl, fun limit m _ => ?_⟩
    cases m with
    | refresh => exact ⟨rfl, ⟨"0", ⟨(), rfl⟩, by decide, by decide⟩, rfl⟩
    | sleep => exact ⟨rfl, rfl⟩
  have hfourth : (stalledWait.sleeps 5 0)[3]? = some (.ofMilliseconds 300, 700000000) := by
    decide +kernel
  obtain ⟨hsleeps, hstalled⟩ := sleeps_scheduled stalledWait 0
  obtain ⟨hends, htimeout⟩ := hstalled hstalls
  obtain ⟨limit, hended⟩ := hends.2 (.inl (by decide))
  exact ⟨hstalls, hfourth, (hsleeps 5 3 _ _ hfourth).2.1, limit, htimeout limit hended⟩

end Wait

end DesiredState
