import DesiredState.Proofs.Reconcile.Ending

/-!
Waits and probes only look.
A wait sends nothing but reads, and what ends it is no refusal unless the store
replied with one.
-/
namespace DesiredState

variable {α β : Type}

def Refused (result : Except Stop α) : Prop :=
  ∃ e, result = .error (.fault e) ∧ e.isRefusal

/-- The store itself gave such an error as its reply. -/
def Exchange.Refuses (x : Exchange) : Prop := ∃ e, x.reply = .error e ∧ e.isRefusal

def OnlyReads (made : List Exchange) : Prop := ∀ x ∈ made, x.request.isWrite = false

/-- Nothing but reads was sent, and only a reply can have been the reason for a refusal. -/
structure Looks (result : Except Stop α) (made : List Exchange) : Prop where
  onlyReads : OnlyReads made
  refused : Refused result → ∃ x ∈ made, x.Refuses

theorem not_refused_ok (a : α) : ¬ Refused (.ok a : Except Stop α) := by
  rintro ⟨e, h, -⟩
  cases h

theorem refused_error_iff {e : Error} :
    Refused (.error (.fault e) : Except Stop α) ↔ e.isRefusal := by
  constructor
  · rintro ⟨e', h, hrefusal⟩
    cases h
    exact hrefusal
  · intro h
    exact ⟨e, rfl, h⟩

theorem not_refused_error {e : Error} (h : e.isRefusal = false) :
    ¬ Refused (.error (.fault e) : Except Stop α) := by
  rw [refused_error_iff, h]
  exact Bool.false_ne_true

theorem onlyReads_nil : OnlyReads [] := fun _ h => by cases h

theorem OnlyReads.append {later made : List Exchange} (hlater : OnlyReads later)
    (hmade : OnlyReads made) : OnlyReads (later ++ made) :=
  List.forall_mem_append.2 ⟨hlater, hmade⟩

theorem onlyReads_get (k : Kind) (id : ObjectId) (reply : Except Error Json) :
    OnlyReads [⟨.get k id, reply⟩] :=
  List.forall_mem_singleton.2 rfl

theorem Looks.of_not_refused {result : Except Stop α} {made : List Exchange}
    (hmade : OnlyReads made) (h : ¬ Refused result) : Looks result made :=
  ⟨hmade, fun hrefused => absurd hrefused h⟩

theorem Looks.of_error {stop : Stop} {made : List Exchange}
    (h : Looks (.error stop : Except Stop α) made) : Looks (.error stop : Except Stop β) made := by
  refine ⟨h.onlyReads, fun ⟨e, he, hrefusal⟩ => h.refused ⟨e, ?_, hrefusal⟩⟩
  cases he
  rfl

/-- Decoding what the store has never ends with a refusal. -/
theorem Object.isRefusal_of_decode {k : Kind} {v : Json} {e : Error}
    (h : Object.decode k v = .error e) : e.isRefusal = false := by
  unfold Object.decode at h
  split at h
  · cases h
  · cases h
    rfl

section

variable {k : Kind} {id : ObjectId} {made : List Exchange}

theorem Asked.onlyReads (h : Asked k id made) : OnlyReads made := by
  intro x hx
  rcases h x hx with hget | hwarnings
  · rw [hget]
    rfl
  · rw [hwarnings]
    rfl

/-- Only the store can refuse a wait. -/
theorem WaitEnd.looks {goal : Goal} {result : Except Stop (Object k)}
    (h : WaitEnd k id goal result made) : Looks result made := by
  refine ⟨h.asked.onlyReads, fun hrefused => ?_⟩
  cases h with
  | failed => exact ⟨_, List.mem_cons_self, _, rfl, refused_error_iff.1 hrefused⟩
  | unreadable _ hdecode =>
    exact absurd hrefused (not_refused_error (Object.isRefusal_of_decode hdecode))
  | reached => exact absurd hrefused (not_refused_ok _)
  | undecided =>
    obtain ⟨e, h, -⟩ := hrefused
    cases h
  | cancelled => exact absurd hrefused (not_refused_error rfl)
  | unexpected => exact absurd hrefused (not_refused_error rfl)
  | late => exact absurd hrefused (not_refused_error rfl)

theorem ExplainedEnd.looks {goal : Goal} {result : Except Stop (Object k)}
    (h : ExplainedEnd k id goal result made) : Looks result made := by
  refine ⟨h.asked.onlyReads, fun hrefused => ?_⟩
  cases h with
  | plain hwait => exact hwait.looks.refused hrefused
  | explained => exact absurd hrefused (not_refused_error rfl)
  | unexplained => exact ⟨_, List.mem_cons_self, _, rfl, refused_error_iff.1 hrefused⟩

theorem AwaitEnd.looks {settings : Settings} {created : Object k} {result : Except Stop Unit}
    (h : AwaitEnd settings created id result made) : Looks result made := by
  cases h with
  | uncounted => exact .of_not_refused onlyReads_nil (not_refused_ok ())
  | @counted _ _ result _ _ _ hwait =>
    cases result with
    | ok o => exact .of_not_refused hwait.asked.onlyReads (not_refused_ok ())
    | error stop => exact hwait.looks.of_error

theorem ProbeEnd.onlyReads {before : Resource} {result : Except Stop Bool}
    (h : ProbeEnd k before result made) : OnlyReads made := by
  cases h with
  | unrecorded => exact onlyReads_nil
  | found => exact onlyReads_get k _ _
  | absent => exact onlyReads_get k _ _
  | failed => exact onlyReads_get k _ _

end

end DesiredState
