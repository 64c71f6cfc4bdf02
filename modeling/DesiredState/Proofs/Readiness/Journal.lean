import DesiredState.Readiness.Wait

/-!
Journals of waits.
All that a wait does to the world is to refresh and to sleep. A journal keeps
each of these moves with the world it was made in. The rounds of a wait are
told by a relation between the moves they make and how they end; every wait
meets it, and its journal holds just those moves.
-/
namespace DesiredState

variable {σ α : Type}

/-- A move of a wait and the world it is made in. -/
inductive Move (σ : Type) where
  | refresh (world : σ)
  | sleep (length : Duration) (world : σ)

namespace Move

def world : Move σ → σ
  | refresh w => w
  | sleep _ w => w

/-- How long a sleep lasts, and the world it begins in. -/
def sleep? : Move σ → Option (Duration × σ)
  | refresh _ => none
  | sleep d w => some (d, w)

end Move

/-- A state together with the moves so far, the last one first. -/
structure Journal (σ : Type) where
  state : σ
  moves : List (Move σ)

def Clock.journaled (c : Clock σ) : Clock (Journal σ) where
  now j := c.now j.state
  sleep d j := ⟨c.sleep d j.state, .sleep d j.state :: j.moves⟩
  cancelled j := c.cancelled j.state

namespace Wait

/-- The wait that also keeps each of its moves. -/
def journaled (p : Wait σ α) : Wait (Journal σ) α where
  clock := p.clock.journaled
  goal := p.goal
  backoff := p.backoff
  refresh j := ((p.refresh j.state).1, ⟨(p.refresh j.state).2, .refresh j.state :: j.moves⟩)

/-- The moves of a wait in their order. -/
def moves (p : Wait σ α) (limit : Nat) (w : σ) : List (Move σ) :=
  (p.journaled.run limit ⟨w, []⟩).2.moves.reverse

/-- The world that a move leaves. -/
def after (p : Wait σ α) : Move σ → σ
  | .refresh w => (p.refresh w).2
  | .sleep d w => p.clock.sleep d w

/-- How long a wait has lasted when a refresh that begins in a world is done. -/
def elapsed (p : Wait σ α) (start : Int) (w : σ) : Duration :=
  .between start (p.clock.now (p.refresh w).2)

/-- The sleep that follows such a refresh. -/
def pause (p : Wait σ α) (start : Int) (delay : Duration) (w : σ) : Duration :=
  delay.least (p.goal.timeout.minus (p.elapsed start w))

/-- A refresh shows a label that is on its way to the target. -/
def Shows (p : Wait σ α) (w : σ) (label : String) : Prop :=
  (∃ object, (p.refresh w).1 = .ok (object, label)) ∧
    label ≠ p.goal.target ∧ label ∈ p.goal.pending

/-- What a refresh decides by itself. A failure comes first, then the target, however late it is
reached, then a label that is not pending, and the timeout last. -/
inductive Decides (p : Wait σ α) (start : Int) (w : σ) : Except Error α → Prop where
  | failed {e : Error} (hreply : (p.refresh w).1 = .error e) : p.Decides start w (.error e)
  | reached {object : α} (hreply : (p.refresh w).1 = .ok (object, p.goal.target)) :
      p.Decides start w (.ok object)
  | unexpected {object : α} {label : String} (hreply : (p.refresh w).1 = .ok (object, label))
      (hne : label ≠ p.goal.target) (hlabel : label ∉ p.goal.pending) :
      p.Decides start w (.error (.unexpectedState label p.goal.target))
  | late {label : String} (hshows : p.Shows w label) (hlate : p.goal.timeout ≤ p.elapsed start w) :
      p.Decides start w (.error (.timeout p.goal.target (some label) (p.elapsed start w) ""))

/-- A refresh leaves the wait undecided. -/
def Defers (p : Wait σ α) (start : Int) (w : σ) : Prop :=
  (∃ label, p.Shows w label) ∧ p.elapsed start w < p.goal.timeout

theorem decides_or_defers (p : Wait σ α) (start : Int) (w : σ) :
    (∃ result, p.Decides start w result) ∨ p.Defers start w := by
  cases hreply : (p.refresh w).1 with
  | error e => exact .inl ⟨_, .failed hreply⟩
  | ok found =>
    obtain ⟨object, label⟩ := found
    by_cases htarget : label = p.goal.target
    · exact .inl ⟨_, .reached (htarget ▸ hreply)⟩
    by_cases hlabel : label ∈ p.goal.pending
    · have hshows : p.Shows w label := ⟨⟨object, hreply⟩, htarget, hlabel⟩
      by_cases hlate : p.goal.timeout ≤ p.elapsed start w
      · exact .inl ⟨_, .late hshows hlate⟩
      · exact .inr ⟨⟨label, hshows⟩, Nat.lt_of_not_le hlate⟩
    · exact .inl ⟨_, .unexpected hreply htarget hlabel⟩

/-- If a pending label is shown, it is the timeout that decides. -/
theorem Decides.late_of_shows {p : Wait σ α} {start : Int} {w : σ} {result : Except Error α}
    (h : p.Decides start w result) {label : String} (hshows : p.Shows w label) :
    p.goal.timeout ≤ p.elapsed start w ∧
      result = .error (.timeout p.goal.target (some label) (p.elapsed start w) "") := by
  obtain ⟨⟨object, hshown⟩, hne, hlabel⟩ := hshows
  cases h with
  | failed hreply =>
    rw [hreply] at hshown
    cases hshown
  | reached hreply =>
    rw [hreply] at hshown
    cases hshown
    exact absurd rfl hne
  | unexpected hreply _ hunknown =>
    rw [hreply] at hshown
    cases hshown
    exact absurd hlabel hunknown
  | late hshows hlate =>
    obtain ⟨⟨object, hreply⟩, -⟩ := hshows
    rw [hreply] at hshown
    cases hshown
    exact ⟨hlate, rfl⟩

/-- What is decided depends on the goal, the reply and the time that has passed. -/
theorem Decides.congr {τ : Type} {p : Wait σ α} {q : Wait τ α} {start : Int} {w : σ} {v : τ}
    {result : Except Error α} (h : p.Decides start w result) (hgoal : p.goal = q.goal)
    (hreply : (p.refresh w).1 = (q.refresh v).1)
    (helapsed : p.elapsed start w = q.elapsed start v) : q.Decides start v result := by
  cases h with
  | failed h => exact .failed (hreply ▸ h)
  | reached h => exact .reached (hgoal ▸ hreply ▸ h)
  | unexpected h hne hlabel =>
    rw [hgoal] at hne hlabel ⊢
    exact .unexpected (hreply ▸ h) hne hlabel
  | late hshows hlate =>
    unfold Shows at hshows
    rw [hgoal, hreply] at hshows
    rw [hgoal, helapsed] at hlate ⊢
    exact .late hshows hlate

theorem Decides.not_defers {p : Wait σ α} {start : Int} {w : σ} {result : Except Error α}
    (h : p.Decides start w result) : ¬ p.Defers start w := by
  rintro ⟨⟨label, hshows⟩, hearly⟩
  exact Nat.not_le_of_lt hearly (h.late_of_shows hshows).1

section Round

variable {p : Wait σ α} {start : Int} {delay : Duration} {w : σ}

theorem round_of_cancelled (h : p.clock.cancelled w = true) :
    p.round start delay w = .done (.error (.cancelled p.goal.target)) w := by
  rw [round, if_pos h]

theorem round_of_free (h : p.clock.cancelled w = false) :
    p.round start delay w =
      match (p.refresh w).1 with
      | .error e => .done (.error e) (p.refresh w).2
      | .ok (object, label) =>
        p.judge object label (p.elapsed start w) delay (p.refresh w).2 := by
  unfold round elapsed
  rw [h, if_neg Bool.false_ne_true]
  generalize p.refresh w = refreshed
  obtain ⟨reply, v⟩ := refreshed
  cases reply <;> rfl

/-- What a refresh decides is the result, whether the wait is cancelled meanwhile or not. -/
theorem round_of_decides (hfree : p.clock.cancelled w = false) {result : Except Error α}
    (h : p.Decides start w result) : p.round start delay w = .done result (p.refresh w).2 := by
  rw [round_of_free hfree]
  cases h with
  | failed hreply => rw [hreply]
  | reached hreply => simp only [hreply, judge, if_true]
  | unexpected hreply hne hlabel => simp only [hreply, judge, hne, hlabel, if_false, if_true,
      not_false_eq_true]
  | late hshows hlate =>
    obtain ⟨⟨object, hreply⟩, hne, hlabel⟩ := hshows
    simp only [hreply, judge, hne, hlabel, hlate, if_false, if_true, not_true_eq_false]

theorem round_of_defers (hfree : p.clock.cancelled w = false) (h : p.Defers start w) :
    p.round start delay w =
      if p.clock.cancelled (p.refresh w).2 then
        .done (.error (.cancelled p.goal.target)) (p.refresh w).2
      else .again (p.backoff.next delay)
        (p.clock.sleep (p.pause start delay w) (p.refresh w).2) := by
  obtain ⟨⟨label, ⟨object, hreply⟩, hne, hlabel⟩, hearly⟩ := h
  have hearly : ¬ p.goal.timeout ≤ p.elapsed start w := Nat.not_le_of_lt hearly
  rw [round_of_free hfree, hreply]
  simp only [judge, hne, hlabel, hearly, if_false, not_true_eq_false, pause]

end Round

/-- The rounds of a wait: the moves they make from a world, the result and the world they leave. -/
inductive Walk (p : Wait σ α) (start : Int) :
    Nat → Duration → σ → List (Move σ) → Except Stop α → σ → Prop where
  | spent {delay : Duration} {w : σ} : p.Walk start 0 delay w [] (.error .undecided) w
  | cancelled {more : Nat} {delay : Duration} {w : σ} (hcancelled : p.clock.cancelled w = true) :
      p.Walk start (more + 1) delay w [] (.error (.fault (.cancelled p.goal.target))) w
  | decided {more : Nat} {delay : Duration} {w : σ} {result : Except Error α}
      (hfree : p.clock.cancelled w = false) (hdecides : p.Decides start w result) :
      p.Walk start (more + 1) delay w [.refresh w] (result.mapError .fault) (p.refresh w).2
  | interrupted {more : Nat} {delay : Duration} {w : σ} (hfree : p.clock.cancelled w = false)
      (hdefers : p.Defers start w) (hcancelled : p.clock.cancelled (p.refresh w).2 = true) :
      p.Walk start (more + 1) delay w [.refresh w] (.error (.fault (.cancelled p.goal.target)))
        (p.refresh w).2
  | again {more : Nat} {delay : Duration} {w after : σ} {moves : List (Move σ)}
      {result : Except Stop α} (hfree : p.clock.cancelled w = false) (hdefers : p.Defers start w)
      (hstill : p.clock.cancelled (p.refresh w).2 = false)
      (hlater : p.Walk start more (p.backoff.next delay)
        (p.clock.sleep (p.pause start delay w) (p.refresh w).2) moves result after) :
      p.Walk start (more + 1) delay w
        (.refresh w :: .sleep (p.pause start delay w) (p.refresh w).2 :: moves) result after

theorem exists_walk (p : Wait σ α) (start : Int) (limit : Nat) (delay : Duration) (w : σ) :
    ∃ moves result after, p.Walk start limit delay w moves result after := by
  induction limit generalizing delay w with
  | zero => exact ⟨_, _, _, .spent⟩
  | succ more ih =>
    cases hfree : p.clock.cancelled w with
    | true => exact ⟨_, _, _, .cancelled hfree⟩
    | false =>
      rcases p.decides_or_defers start w with ⟨result, hdecides⟩ | hdefers
      · exact ⟨_, _, _, .decided hfree hdecides⟩
      · cases hstill : p.clock.cancelled (p.refresh w).2 with
        | true => exact ⟨_, _, _, .interrupted hfree hdefers hstill⟩
        | false =>
          obtain ⟨moves, result, after, hlater⟩ := ih (p.backoff.next delay) (p.clock.sleep
            (p.pause start delay w) (p.refresh w).2)
          exact ⟨_, _, _, .again hfree hdefers hstill hlater⟩

section Walk

variable {p : Wait σ α} {start : Int} {limit : Nat} {delay : Duration} {w after : σ}
  {moves : List (Move σ)} {result : Except Stop α}

/-- Rounds go as they are told. -/
theorem Walk.rounds_eq (h : p.Walk start limit delay w moves result after) :
    p.rounds start limit delay w = (result, after) := by
  induction h with
  | spent => rfl
  | cancelled hcancelled => rw [rounds, round_of_cancelled hcancelled]; rfl
  | decided hfree hdecides => rw [rounds, round_of_decides hfree hdecides]
  | interrupted hfree hdefers hcancelled =>
    rw [rounds, round_of_defers hfree hdefers, if_pos hcancelled]
    rfl
  | again hfree hdefers hstill _ ih =>
    rw [rounds, round_of_defers hfree hdefers, hstill, if_neg Bool.false_ne_true]
    exact ih

/-- A journal changes nothing but that it keeps the moves. -/
theorem Walk.journaled (h : p.Walk start limit delay w moves result after)
    (earlier : List (Move σ)) :
    ∃ kept, p.journaled.Walk start limit delay ⟨w, earlier⟩ kept result
      ⟨after, moves.reverse ++ earlier⟩ := by
  induction h generalizing earlier with
  | spent => exact ⟨_, .spent⟩
  | cancelled hcancelled => exact ⟨_, .cancelled hcancelled⟩
  | decided hfree hdecides => exact ⟨_, .decided hfree (hdecides.congr rfl rfl rfl)⟩
  | interrupted hfree hdefers hcancelled => exact ⟨_, .interrupted hfree hdefers hcancelled⟩
  | again hfree hdefers hstill _ ih =>
    rw [List.reverse_cons, List.reverse_cons, List.append_assoc, List.append_assoc]
    obtain ⟨kept, hlater⟩ := ih _
    exact ⟨_, .again hfree hdefers hstill hlater⟩

/-- A wait makes the moves that its rounds are told of. -/
theorem Walk.run_eq (h : p.Walk (p.clock.now w) limit p.backoff.least w moves result after) :
    p.run limit w = (result, after) ∧ p.moves limit w = moves := by
  refine ⟨h.rounds_eq, ?_⟩
  obtain ⟨kept, hkept⟩ := h.journaled []
  have hrun : p.journaled.run limit ⟨w, []⟩ = (result, ⟨after, moves.reverse ++ []⟩) :=
    hkept.rounds_eq
  rw [Wait.moves, hrun, List.append_nil, List.reverse_reverse]

theorem walk_run (p : Wait σ α) (limit : Nat) (w : σ) :
    p.Walk (p.clock.now w) limit p.backoff.least w (p.moves limit w) (p.run limit w).1
      (p.run limit w).2 := by
  obtain ⟨moves, result, after, hwalk⟩ :=
    p.exists_walk (p.clock.now w) limit p.backoff.least w
  obtain ⟨hrun, hmoves⟩ := hwalk.run_eq
  rw [hrun, hmoves]
  exact hwalk

end Walk

end Wait

end DesiredState
