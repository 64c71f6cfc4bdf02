import DesiredState.Proofs.Numeral
import DesiredState.Proofs.Reconcile.Ending

/-!
Creations that count ready replicas.
The label of a count is the target, or pending, exactly as the count is the
target, or lies below it from zero on. So the creation of a scaled workload
succeeds only after a read that showed the target, and all reads before it
showed less; a count out of these bounds ends the creation.
-/
namespace DesiredState

variable {σ : Type} {k : Kind}

theorem Text.intText_inj {i j : Int} : Text.intText i = Text.intText j ↔ i = j := by
  constructor
  · intro h
    have hi := Text.signed?_intText i
    rw [h, Text.signed?_intText] at hi
    exact (Option.some.inj hi).symm
  · intro h
    rw [h]

theorem Text.intText_natCast (n : Nat) : Text.intText n = n.repr := by
  have hpos : ¬ (n : Int) < 0 := by omega
  simp [Text.intText]

namespace Goal

theorem label_eq_target_iff (n target : Int32) (timeout : Duration) :
    Text.intText n.toInt = (ofCount target timeout).target ↔ n = target :=
  Text.intText_inj.trans Int32.toInt_inj

theorem label_mem_pending_iff (n target : Int32) (timeout : Duration) :
    Text.intText n.toInt ∈ (ofCount target timeout).pending ↔ 0 ≤ n ∧ n < target := by
  have hzero : (0 : Int32).toInt = 0 := rfl
  rw [mem_pending_ofCount, Int32.le_iff_toInt_le, Int32.lt_iff_toInt_lt, hzero]
  constructor
  · rintro ⟨m, hm, hlabel⟩
    rw [← Text.intText_natCast, Text.intText_inj] at hlabel
    omega
  · intro h
    refine ⟨n.toInt.toNat, by omega, ?_⟩
    rw [← Text.intText_natCast, Text.intText_inj]
    omega

end Goal

/-- A read reported so many ready replicas. -/
def Exchange.Reports (k : Kind) (x : Exchange) (n : Int32) : Prop :=
  ∃ id v o, x = ⟨.get k id, .ok v⟩ ∧ Object.decode k v = .ok o ∧ o.readyReplicas?.getD 0 = n

theorem Exchange.Reports.unique {x : Exchange} {m n : Int32} (h : x.Reports k m)
    (hother : x.Reports k n) : m = n := by
  obtain ⟨id, v, o, rfl, hdecode, rfl⟩ := h
  obtain ⟨id', v', o', hsame, hdecode', rfl⟩ := hother
  cases hsame
  rw [Except.ok.inj (hdecode.symm.trans hdecode')]

section

variable (hk : k = .deployment ∨ k = .statefulSet)

include hk

theorem Object.readiness_of_scaled (o : Object k) :
    o.readiness = some ⟨o.replicas?.getD 1, o.readyReplicas?.getD 0⟩ := by
  rcases hk with rfl | rfl <;> rfl

theorem Object.readyLabel_of_scaled (o : Object k) :
    o.readyLabel = Text.intText (o.readyReplicas?.getD 0).toInt := by
  unfold Object.readyLabel
  rw [o.readiness_of_scaled hk]

theorem Settings.readinessTimeout_of_scaled (settings : Settings) :
    ∃ timeout, settings.readinessTimeout k = some timeout := by
  rcases hk with rfl | rfl <;> exact ⟨_, rfl⟩

variable {id : ObjectId} {target : Int32} {timeout : Duration} {made later earlier : List Exchange}
  {x : Exchange} {n : Int32}

theorem Pending.reports (h : Pending k id (.ofCount target timeout) made) (hx : x ∈ made) :
    ∃ n, x.Reports k n ∧ 0 ≤ n ∧ n < target := by
  obtain ⟨v, o, rfl, hdecode, hpending, -⟩ := h x hx
  rw [o.readyLabel_of_scaled hk, Goal.label_mem_pending_iff] at hpending
  exact ⟨_, ⟨id, v, o, rfl, hdecode, rfl⟩, hpending⟩

theorem Pending.not_reports (h : Pending k id (.ofCount target timeout) made) (hx : x ∈ made)
    (hreports : x.Reports k n) (hbounds : n < 0 ∨ target < n) : False := by
  obtain ⟨m, hm, hlow, hhigh⟩ := h.reports hk hx
  obtain rfl : m = n := hm.unique hreports
  rw [Int32.le_iff_toInt_le] at hlow
  rw [Int32.lt_iff_toInt_lt] at hhigh
  rw [Int32.lt_iff_toInt_lt, Int32.lt_iff_toInt_lt] at hbounds
  omega

theorem WaitEnd.reached_target {o : Object k}
    (h : WaitEnd k id (.ofCount target timeout) (.ok o) made) :
    ∃ reached earlier, made = reached :: earlier ∧ reached.Reports k target ∧
      ∀ x ∈ earlier, ∃ n, x.Reports k n ∧ 0 ≤ n ∧ n < target := by
  cases h with
  | @reached earlier v _ hpending hdecode hlabel =>
    rw [o.readyLabel_of_scaled hk, Goal.label_eq_target_iff] at hlabel
    exact ⟨_, earlier, rfl, ⟨id, v, o, rfl, hdecode, hlabel⟩, fun _ => hpending.reports hk⟩

/-- Only the last read of a wait reports a count out of bounds, and the wait ends with it. -/
theorem WaitEnd.out_of_bounds {result : Except Stop (Object k)}
    (h : WaitEnd k id (.ofCount target timeout) result made)
    (hmade : made = later ++ x :: earlier) (hreports : x.Reports k n) (hne : n ≠ target)
    (hbounds : n < 0 ∨ target < n) :
    later = [] ∧ result =
      .error (.fault (.unexpectedState (Text.intText n.toInt) (Text.intText target.toInt))) := by
  have hlast {y : Exchange} {pending : List Exchange} (hmade : y :: pending = later ++ x :: earlier)
      (hpending : Pending k id (.ofCount target timeout) pending) : later = [] ∧ y = x := by
    cases later with
    | nil => exact ⟨rfl, (List.cons.inj hmade).1⟩
    | cons z rest =>
      have hx : x ∈ pending := by
        rw [(List.cons.inj hmade).2]
        exact List.mem_append_right _ List.mem_cons_self
      exact (hpending.not_reports hk hx hreports hbounds).elim
  have hx : x ∈ made := hmade ▸ List.mem_append_right _ List.mem_cons_self
  cases h with
  | undecided hpending => exact (hpending.not_reports hk hx hreports hbounds).elim
  | cancelled hpending => exact (hpending.not_reports hk hx hreports hbounds).elim
  | failed hpending =>
    obtain ⟨-, rfl⟩ := hlast hmade hpending
    obtain ⟨_, _, _, hget, -⟩ := hreports
    cases hget
  | unreadable hpending hdecode =>
    obtain ⟨-, rfl⟩ := hlast hmade hpending
    obtain ⟨_, _, _, hget, hread, -⟩ := hreports
    cases hget
    rw [hread] at hdecode
    cases hdecode
  | @reached _ v o hpending hdecode hlabel =>
    obtain ⟨-, rfl⟩ := hlast hmade hpending
    rw [o.readyLabel_of_scaled hk, Goal.label_eq_target_iff] at hlabel
    exact absurd (hreports.unique ⟨id, v, o, rfl, hdecode, hlabel⟩) hne
  | @unexpected _ v o hpending hdecode _ _ =>
    obtain ⟨hlater, rfl⟩ := hlast hmade hpending
    have hcount : o.readyReplicas?.getD 0 = n :=
      Exchange.Reports.unique ⟨id, v, o, rfl, hdecode, rfl⟩ hreports
    rw [o.readyLabel_of_scaled hk, hcount]
    exact ⟨hlater, rfl⟩
  | @late _ v o _ hpending hdecode hne' hlabel hlate =>
    have hone : Pending k id (.ofCount target timeout) [⟨.get k id, .ok v⟩] :=
      List.forall_mem_singleton.2 ⟨v, o, rfl, hdecode, hlabel, hne'⟩
    obtain ⟨-, rfl⟩ := hlast hmade hpending
    exact (hone.not_reports hk List.mem_cons_self hreports hbounds).elim

/-- A wait that ends with warnings ends with the exchange that asked for them. -/
theorem ExplainedEnd.out_of_bounds {result : Except Stop (Object k)}
    (h : ExplainedEnd k id (.ofCount target timeout) result made)
    (hmade : made = later ++ x :: earlier) (hreports : x.Reports k n) (hne : n ≠ target)
    (hbounds : n < 0 ∨ target < n) :
    later = [] ∧ result =
      .error (.fault (.unexpectedState (Text.intText n.toInt) (Text.intText target.toInt))) := by
  -- After a timeout no read has reported such a count, and a question for warnings reports none.
  have hno {target' events : String} {last : Option String} {waited : Duration}
      {warned : Exchange} {reads : List Exchange} (hmade : warned :: reads = later ++ x :: earlier)
      (hwarned : warned.request.verb = .warnings)
      (hwait : WaitEnd k id (.ofCount target timeout)
        (.error (.fault (.timeout target' last waited events))) reads) : False := by
    cases later with
    | nil =>
      obtain ⟨_, _, _, rfl, -⟩ := hreports
      obtain rfl := (List.cons.inj hmade).1
      cases hwarned
    | cons y rest =>
      obtain ⟨-, hresult⟩ := hwait.out_of_bounds hk (List.cons.inj hmade).2 hreports hne hbounds
      cases hresult
  cases h with
  | plain hwait => exact hwait.out_of_bounds hk hmade hreports hne hbounds
  | explained hwait => exact (hno hmade rfl hwait).elim
  | unexplained hwait => exact (hno hmade rfl hwait).elim

variable {settings : Settings} {o : Object k} {result : Except Stop Unit} {before after : Resource}
  {v : Json}

/-- The wait for an object that counts is for the number of replicas that it wants. -/
theorem AwaitEnd.explained (h : AwaitEnd settings o id result made) :
    ∃ timeout live, result = live.map (fun _ => ()) ∧
      ExplainedEnd k id (.ofCount (o.replicas?.getD 1) timeout) live made := by
  cases h with
  | uncounted hnone =>
    obtain ⟨timeout, htimeout⟩ := settings.readinessTimeout_of_scaled hk
    rw [o.readiness_of_scaled hk, htimeout] at hnone
    rcases hnone with hnone | hnone <;> cases hnone
  | @counted count timeout live _ hcount htimeout hwait =>
    rw [o.readiness_of_scaled hk] at hcount
    obtain rfl := Option.some.inj hcount
    exact ⟨timeout, live, rfl, hwait⟩

theorem AwaitEnd.reached_target (h : AwaitEnd settings o id (.ok ()) made) :
    ∃ reached earlier, made = reached :: earlier ∧ reached.Reports k (o.replicas?.getD 1) ∧
      ∀ x ∈ earlier, ∃ n, x.Reports k n ∧ 0 ≤ n ∧ n < o.replicas?.getD 1 := by
  obtain ⟨timeout, live, hlive, hwait⟩ := h.explained hk
  cases live with
  | error stop => cases hlive
  | ok found =>
    cases hwait with
    | plain hwait => exact hwait.reached_target hk

theorem AwaitEnd.out_of_bounds (h : AwaitEnd settings o id result made)
    (hmade : made = later ++ x :: earlier) (hreports : x.Reports k n)
    (hne : n ≠ o.replicas?.getD 1) (hbounds : n < 0 ∨ o.replicas?.getD 1 < n) :
    later = [] ∧ result = .error (.fault (.unexpectedState (Text.intText n.toInt)
      (Text.intText (o.replicas?.getD 1).toInt))) := by
  obtain ⟨timeout, live, hlive, hwait⟩ := h.explained hk
  obtain ⟨hlater, hresult⟩ := hwait.out_of_bounds hk hmade hreports hne hbounds
  rw [hlive, hresult]
  exact ⟨hlater, rfl⟩

theorem TakeOverEnd.out_of_bounds (h : TakeOverEnd settings k before v result made after)
    (hdecode : Object.decode k v = .ok o) (hmade : made = later ++ x :: earlier)
    (hreports : x.Reports k n) (hearlier : ∀ y ∈ earlier, ¬ y.Reports k (o.replicas?.getD 1))
    (hne : n ≠ o.replicas?.getD 1) (hbounds : n < 0 ∨ o.replicas?.getD 1 < n) :
    later = [] ∧ result = .error (.fault (.unexpectedState (Text.intText n.toInt)
      (Text.intText (o.replicas?.getD 1).toInt))) := by
  cases h with
  | unreadable => simp at hmade
  | unidentified => simp at hmade
  | @unready o' _ _ _ hdecode' hid hwait =>
    obtain rfl : o' = o := Except.ok.inj (hdecode'.symm.trans hdecode)
    exact hwait.out_of_bounds hk hmade hreports hne hbounds
  | @awaited o' _ waited read _ _ hdecode' hid hwait hread =>
    obtain rfl : o' = o := Except.ok.inj (hdecode'.symm.trans hdecode)
    exfalso
    have hin (more : List Exchange) (hwaited : waited = more ++ x :: earlier) : False := by
      obtain ⟨-, hresult⟩ := hwait.out_of_bounds hk hwaited hreports hne hbounds
      cases hresult
    rcases List.append_eq_append_iff.1 hmade with ⟨more, -, hwaited⟩ | ⟨more, hread, hwaited⟩
    · exact hin more hwaited
    · cases more with
      | nil => exact hin [] hwaited.symm
      | cons y rest =>
        -- The read came after the wait had reached the target.
        obtain ⟨reached, pending, rfl, hreached, -⟩ := hwait.reached_target hk
        refine hearlier reached ?_ hreached
        rw [(List.cons.inj hwaited).2]
        exact List.mem_append_right _ List.mem_cons_self

end

namespace Reconciler

end Reconciler

end DesiredState
