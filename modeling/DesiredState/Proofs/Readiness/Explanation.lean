import DesiredState.Proofs.Readiness.Journal
import DesiredState.Proofs.Warning.Order
import DesiredState.Readiness.Script

/-!
Explaining a timeout.
A wait that took too long asks for warnings, once, and tells the most recent of
them; a wait that ends in any other way is left as it ended. A ledger keeps the
states in which warnings were asked for and changes nothing else.
-/
namespace DesiredState

variable {σ α : Type}

/-- A state together with those in which warnings were asked for, the last one first. -/
structure Ledger (σ : Type) where
  state : σ
  asked : List σ

def Clock.booked (c : Clock σ) : Clock (Ledger σ) where
  now l := c.now l.state
  sleep d l := { l with state := c.sleep d l.state }
  cancelled l := c.cancelled l.state

namespace Wait

def booked (p : Wait σ α) : Wait (Ledger σ) α where
  clock := p.clock.booked
  goal := p.goal
  backoff := p.backoff
  refresh l := ((p.refresh l.state).1, { l with state := (p.refresh l.state).2 })

/-- A question for warnings that is also put on the ledger. -/
def booking (query : σ → Except Error (List Warning) × σ) (l : Ledger σ) :
    Except Error (List Warning) × Ledger σ :=
  ((query l.state).1, ⟨(query l.state).2, l.state :: l.asked⟩)

/-- The states in which a wait asks for warnings, in their order. -/
def queries (p : Wait σ α) (query : σ → Except Error (List Warning) × σ)
    (warningLimit limit : Nat) (w : σ) : List σ :=
  (p.booked.runExplained (booking query) warningLimit limit ⟨w, []⟩).2.asked.reverse

/-- A wait that ended because it took too long. -/
def TimedOut (result : Except Stop α) : Prop :=
  ∃ target last waited events,
    result = .error (.fault (.timeout target last waited events))

theorem Walk.booked {p : Wait σ α} {start : Int} {limit : Nat} {delay : Duration} {w after : σ}
    {moves : List (Move σ)} {result : Except Stop α}
    (h : p.Walk start limit delay w moves result after) (asked : List σ) :
    ∃ made, p.booked.Walk start limit delay ⟨w, asked⟩ made result ⟨after, asked⟩ := by
  induction h with
  | spent => exact ⟨_, .spent⟩
  | cancelled hcancelled => exact ⟨_, .cancelled hcancelled⟩
  | decided hfree hdecides => exact ⟨_, .decided hfree (hdecides.congr rfl rfl rfl)⟩
  | interrupted hfree hdefers hcancelled => exact ⟨_, .interrupted hfree hdefers hcancelled⟩
  | again hfree hdefers hstill _ ih =>
    obtain ⟨made, hlater⟩ := ih
    exact ⟨_, .again hfree hdefers hstill hlater⟩

/-- A wait itself asks for no warnings. -/
theorem booked_run (p : Wait σ α) (limit : Nat) (w : σ) (asked : List σ) :
    p.booked.run limit ⟨w, asked⟩ = ((p.run limit w).1, ⟨(p.run limit w).2, asked⟩) := by
  obtain ⟨made, hwalk⟩ := (p.walk_run limit w).booked asked
  exact hwalk.rounds_eq

section Explained

variable (p : Wait σ α) (query : σ → Except Error (List Warning) × σ) (warningLimit limit : Nat)
  (w : σ)

/-- Warnings are only asked for after a timeout. -/
theorem runExplained_eq_run (h : ¬ TimedOut (p.run limit w).1) :
    p.runExplained query warningLimit limit w = p.run limit w := by
  unfold runExplained
  split
  · rename_i hrun
    exact absurd ⟨_, _, _, _, congrArg Prod.fst hrun⟩ h
  · rfl

/-- What becomes of a timeout by what is known of the warnings. -/
def explanation (warningLimit : Nat) (target : String) (last : Option String)
    (waited : Duration) : Except Error (List Warning) → Except Stop α
  | .ok warnings =>
    .error (.fault (.timeout target last waited
      (Warning.report (Warning.recent warnings warningLimit))))
  | .error e => .error (.fault e)

variable {p query warningLimit limit w}

theorem runExplained_of_timeout {target : String} {last : Option String} {waited : Duration}
    {events : String}
    (h : (p.run limit w).1 = .error (.fault (.timeout target last waited events))) :
    p.runExplained query warningLimit limit w =
      (explanation warningLimit target last waited (query (p.run limit w).2).1,
        (query (p.run limit w).2).2) := by
  unfold runExplained
  generalize p.run limit w = ended at h ⊢
  obtain ⟨result, after⟩ := ended
  obtain rfl : result = _ := h
  cases hquery : query after with
  | mk reply later => cases reply <;> simp only [hquery, explanation]

theorem queries_of_timeout (h : TimedOut (p.run limit w).1) :
    p.queries query warningLimit limit w = [(p.run limit w).2] := by
  obtain ⟨target, last, waited, events, hrun⟩ := h
  have hbooked : (p.booked.run limit ⟨w, []⟩).1 =
      .error (.fault (.timeout target last waited events)) := by rw [booked_run, hrun]
  rw [queries, runExplained_of_timeout hbooked, booked_run]
  rfl

theorem queries_of_not_timeout (h : ¬ TimedOut (p.run limit w).1) :
    p.queries query warningLimit limit w = [] := by
  have hbooked : ¬ TimedOut (p.booked.run limit ⟨w, []⟩).1 := by rwa [booked_run]
  rw [queries, runExplained_eq_run _ _ _ _ _ hbooked, booked_run]
  rfl

/-- With a ledger a wait ends as it does without one. -/
theorem booked_runExplained :
    p.booked.runExplained (booking query) warningLimit limit ⟨w, []⟩ =
      ((p.runExplained query warningLimit limit w).1,
        ⟨(p.runExplained query warningLimit limit w).2,
          (p.queries query warningLimit limit w).reverse⟩) := by
  by_cases h : TimedOut (p.run limit w).1
  · rw [queries_of_timeout h]
    obtain ⟨target, last, waited, events, hrun⟩ := h
    have hbooked : (p.booked.run limit ⟨w, []⟩).1 =
        .error (.fault (.timeout target last waited events)) := by rw [booked_run, hrun]
    rw [runExplained_of_timeout hbooked, runExplained_of_timeout hrun, booked_run]
    rfl
  · have hbooked : ¬ TimedOut (p.booked.run limit ⟨w, []⟩).1 := by rwa [booked_run]
    rw [queries_of_not_timeout h, runExplained_eq_run _ _ _ _ _ hbooked,
      runExplained_eq_run _ _ _ _ _ h, booked_run]
    rfl

end Explained

/-- Explaining a timeout changes nothing but the text of the events. The ledger that the questions
are put on does not change how a wait ends. Warnings are asked for once after a timeout and never
otherwise, and only a timeout is changed: it tells the warnings, or the question's own failure takes
its place. Those told are the first in the order of warnings, as many as there are up to the limit,
so none that is left out was seen later than one of them. The text is empty if none are told, and
else has a header and a line for each of them. -/
theorem runExplained_exact (p : Wait σ α) (query : σ → Except Error (List Warning) × σ)
    (warningLimit limit : Nat) (w : σ) :
    let plain := p.run limit w
    let explained := p.runExplained query warningLimit limit w
    let queries := p.queries query warningLimit limit w
    p.booked.runExplained (booking query) warningLimit limit ⟨w, []⟩ =
      (explained.1, ⟨explained.2, queries.reverse⟩) ∧
    (TimedOut plain.1 → queries = [plain.2]) ∧
    (¬ TimedOut plain.1 → queries = [] ∧ explained = plain) ∧
    (∀ target last waited events,
      plain.1 = .error (.fault (.timeout target last waited events)) →
      (∀ warnings, (query plain.2).1 = .ok warnings →
        explained.1 = .error (.fault (.timeout target last waited
          (Warning.report (Warning.recent warnings warningLimit))))) ∧
      (∀ e, (query plain.2).1 = .error e → explained.1 = .error (.fault e)) ∧
      explained.2 = (query plain.2).2) ∧
    ∀ warnings, ∃ told omitted, Warning.Ranks (told ++ omitted) warnings ∧
      told.length = min warningLimit warnings.length ∧
      (∀ a ∈ told, ∀ b ∈ omitted, a.Precedes b) ∧
      (told = [] → Warning.report (Warning.recent warnings warningLimit) = "") ∧
      (told ≠ [] → Warning.report (Warning.recent warnings warningLimit) =
        "\n\nMost recent warning events:" ++ String.join (told.map fun w => "\n\t" ++
          (w.lastSeen?.elim "" (·.shortText ++ " ") ++ w.reason ++ ": " ++ w.message))) := by
  intro plain explained queries
  refine ⟨booked_runExplained, queries_of_timeout,
    fun hended => ⟨queries_of_not_timeout hended, ?_⟩, ?_, fun warnings => ?_⟩
  · exact p.runExplained_eq_run query warningLimit limit w hended
  · intro target last waited events htimeout
    have hexplained : explained = _ := runExplained_of_timeout htimeout
    rw [hexplained]
    refine ⟨fun warnings hwarnings => ?_, fun e herror => ?_, rfl⟩
    · exact congrArg (explanation warningLimit target last waited) hwarnings
    · exact congrArg (explanation warningLimit target last waited) herror
  · obtain ⟨told, omitted, hranks, hlength, hnewer, hrecent⟩ :=
      Warning.exists_ranks_recent warnings warningLimit
    rw [hrecent]
    refine ⟨told, omitted, hranks, hlength, hnewer, ?_, Warning.report_lines⟩
    rintro rfl
    rfl

/-- A wait for one replica. -/
def troubledWait : Wait Script.World Nat := Script.wait ⟨["0"], "1", .ofSeconds 1⟩ .initial

def troubles : List Warning := [
  ⟨"BackOff", "pulling", some ⟨60, 0⟩, none⟩,
  ⟨"Failed", "no such image", none, none⟩,
  ⟨"Pulled", "done", some ⟨120, 0⟩, none⟩]

/-- A replica that is not ready after two seconds, with three warnings about it. -/
def troubledWorld : Script.World := .start [⟨2000, .ok "0"⟩] .never (.ok troubles)

theorem run_troubled : (troubledWait.run 2 troubledWorld).1 =
    .error (.fault (.timeout "1" (some "0") (.ofSeconds 2) "")) := by
  have hshows : troubledWait.Shows troubledWorld "0" := ⟨⟨1, rfl⟩, by decide, by decide⟩
  have helapsed : troubledWait.elapsed 0 troubledWorld = .ofSeconds 2 := by decide
  have hdecides := helapsed ▸ Decides.late hshows (by decide)
  have hwalk : troubledWait.Walk 0 2 troubledWait.backoff.least troubledWorld _ _ _ :=
    .decided rfl hdecides
  exact congrArg Prod.fst hwalk.rounds_eq

/-- Two warnings are told, the newer one first; the one without a time is left out. -/
theorem runExplained_exact_troubled :
    let query := Script.query "Deployment" ⟨some "apps", "web"⟩
    TimedOut (troubledWait.run 2 troubledWorld).1 ∧
    (troubledWait.queries query 2 2 troubledWorld).length = 1 ∧
    (troubledWait.runExplained query 2 2 troubledWorld).1 =
      .error (.fault (.timeout "1" (some "0") (.ofSeconds 2) ("\n\nMost recent warning events:" ++
        "\n\t1970-01-01T00:02:00Z Pulled: done" ++
        "\n\t1970-01-01T00:01:00Z BackOff: pulling"))) := by
  intro query
  have htimedOut : TimedOut (troubledWait.run 2 troubledWorld).1 := ⟨_, _, _, _, run_troubled⟩
  obtain ⟨-, honce, -, htimeout, -⟩ := runExplained_exact troubledWait query 2 2 troubledWorld
  obtain ⟨htold, -, -⟩ := htimeout _ _ _ _ run_troubled
  have hsorted : Warning.newestFirst troubles = [⟨"Pulled", "done", some ⟨120, 0⟩, none⟩,
      ⟨"BackOff", "pulling", some ⟨60, 0⟩, none⟩, ⟨"Failed", "no such image", none, none⟩] := by
    simp [Warning.newestFirst, troubles, List.mergeSort, Warning.newer, Timestamp.before]
  have hreport : Warning.report (Warning.recent troubles 2) = "\n\nMost recent warning events:" ++
        "\n\t1970-01-01T00:02:00Z Pulled: done" ++
        "\n\t1970-01-01T00:01:00Z BackOff: pulling" := by
    rw [Warning.recent, hsorted]
    decide +kernel
  refine ⟨htimedOut, congrArg List.length (honce htimedOut), ?_⟩
  rw [htold _ rfl, hreport]

end Wait

end DesiredState
