import DesiredState.Proofs.Readiness.Journal
import DesiredState.Proofs.Reconcile.Chronicle

/-!
How operations end.
For each operation there is a list of its endings: with which result, after
which exchanges and with which resource. A wait ends after reads that all
showed a pending label but the last one, and only a timeout is followed by a
question for warnings.
-/
namespace DesiredState

variable {σ α : Type}

/-- All that was done is to read labels that are still pending. -/
def Pending (k : Kind) (id : ObjectId) (goal : Goal) (made : List Exchange) : Prop :=
  ∀ x ∈ made, ∃ v o, x = ⟨.get k id, .ok v⟩ ∧ Object.decode k v = .ok o ∧
    o.readyLabel ∈ goal.pending ∧ o.readyLabel ≠ goal.target

/-- How a wait may end. -/
inductive WaitEnd (k : Kind) (id : ObjectId) (goal : Goal) :
    Except Stop (Object k) → List Exchange → Prop where
  | undecided {earlier : List Exchange} (hpending : Pending k id goal earlier) :
      WaitEnd k id goal (.error .undecided) earlier
  | cancelled {earlier : List Exchange} (hpending : Pending k id goal earlier) :
      WaitEnd k id goal (.error (.fault (.cancelled goal.target))) earlier
  | failed {earlier : List Exchange} {e : Error} (hpending : Pending k id goal earlier) :
      WaitEnd k id goal (.error (.fault e)) (⟨.get k id, .error e⟩ :: earlier)
  | unreadable {earlier : List Exchange} {v : Json} {e : Error}
      (hpending : Pending k id goal earlier) (hdecode : Object.decode k v = .error e) :
      WaitEnd k id goal (.error (.fault e)) (⟨.get k id, .ok v⟩ :: earlier)
  | reached {earlier : List Exchange} {v : Json} {o : Object k}
      (hpending : Pending k id goal earlier) (hdecode : Object.decode k v = .ok o)
      (hlabel : o.readyLabel = goal.target) :
      WaitEnd k id goal (.ok o) (⟨.get k id, .ok v⟩ :: earlier)
  | unexpected {earlier : List Exchange} {v : Json} {o : Object k}
      (hpending : Pending k id goal earlier) (hdecode : Object.decode k v = .ok o)
      (hne : o.readyLabel ≠ goal.target) (hlabel : o.readyLabel ∉ goal.pending) :
      WaitEnd k id goal (.error (.fault (.unexpectedState o.readyLabel goal.target)))
        (⟨.get k id, .ok v⟩ :: earlier)
  | late {earlier : List Exchange} {v : Json} {o : Object k} {waited : Duration}
      (hpending : Pending k id goal earlier) (hdecode : Object.decode k v = .ok o)
      (hne : o.readyLabel ≠ goal.target) (hlabel : o.readyLabel ∈ goal.pending)
      (hlate : goal.timeout ≤ waited) :
      WaitEnd k id goal (.error (.fault (.timeout goal.target (some o.readyLabel) waited "")))
        (⟨.get k id, .ok v⟩ :: earlier)

/-- How a wait may end that asks for warnings after a timeout. -/
inductive ExplainedEnd (k : Kind) (id : ObjectId) (goal : Goal) :
    Except Stop (Object k) → List Exchange → Prop where
  | plain {result : Except Stop (Object k)} {made : List Exchange}
      (hwait : WaitEnd k id goal result made) : ExplainedEnd k id goal result made
  | explained {made : List Exchange} {target events report : String} {last : Option String}
      {waited : Duration} {warnings : List Warning}
      (hwait : WaitEnd k id goal (.error (.fault (.timeout target last waited events))) made) :
      ExplainedEnd k id goal (.error (.fault (.timeout target last waited report)))
        (⟨.warnings k id, .ok warnings⟩ :: made)
  | unexplained {made : List Exchange} {target events : String} {last : Option String}
      {waited : Duration} {e : Error}
      (hwait : WaitEnd k id goal (.error (.fault (.timeout target last waited events))) made) :
      ExplainedEnd k id goal (.error (.fault e)) (⟨.warnings k id, .error e⟩ :: made)

/-- How the wait for a created object may end; nothing is waited for without a count. -/
inductive AwaitEnd (settings : Settings) {k : Kind} (created : Object k) (id : ObjectId) :
    Except Stop Unit → List Exchange → Prop where
  | uncounted (hnone : created.readiness = none ∨ settings.readinessTimeout k = none) :
      AwaitEnd settings created id (.ok ()) []
  | counted {count : ReadyCount} {timeout : Duration} {result : Except Stop (Object k)}
      {made : List Exchange} (hcount : created.readiness = some count)
      (htimeout : settings.readinessTimeout k = some timeout)
      (hwait : ExplainedEnd k id (.ofCount count.target timeout) result made) :
      AwaitEnd settings created id (result.map fun _ => ()) made

/-- How a new object may be taken over that the store replied with. -/
inductive TakeOverEnd (settings : Settings) (k : Kind) (before : Resource) (v : Json) :
    Except Stop Unit → List Exchange → Resource → Prop where
  | unreadable {e : Error} (hdecode : Object.decode k v = .error e) :
      TakeOverEnd settings k before v (.error (.fault e)) [] before
  | unidentified {o : Object k} {e : Error} (hdecode : Object.decode k v = .ok o)
      (hid : o.id = .error e) : TakeOverEnd settings k before v (.error (.fault e)) [] before
  | unready {o : Object k} {id : ObjectId} {stop : Stop} {waited : List Exchange}
      (hdecode : Object.decode k v = .ok o) (hid : o.id = .ok id)
      (hwait : AwaitEnd settings o id (.error stop) waited) :
      TakeOverEnd settings k before v (.error stop) waited (before.setId (some id.text))
  | awaited {o : Object k} {id : ObjectId} {waited made : List Exchange}
      {result : Except Stop Unit} {after : Resource}
      (hdecode : Object.decode k v = .ok o) (hid : o.id = .ok id)
      (hwait : AwaitEnd settings o id (.ok ()) waited)
      (hread : ReadEnd k (before.setId (some id.text)) result made after) :
      TakeOverEnd settings k before v result (made ++ waited) after

/-- The request that a creation sends for an expanded object. -/
def Reconciler.creation (r : Reconciler σ) {k : Kind} (d : Object k) : Request :=
  .create k (d.placed r.settings.defaultNamespace).ns?
    (d.placed r.settings.defaultNamespace).encode

/-- How a creation may end. -/
inductive CreateEnd (r : Reconciler σ) (k : Kind) (before : Resource) :
    Except Stop Unit → List Exchange → Resource → Prop where
  | malformed {e : Error} (hexpand : Object.expand k before.desired = .error e) :
      CreateEnd r k before (.error (.fault e)) [] before
  | failed {d : Object k} {e : Error} (hexpand : Object.expand k before.desired = .ok d) :
      CreateEnd r k before (.error (.fault e)) [⟨r.creation d, .error e⟩] before
  | made {d : Object k} {v : Json} {result : Except Stop Unit} {later : List Exchange}
      {after : Resource} (hexpand : Object.expand k before.desired = .ok d)
      (htaken : TakeOverEnd r.settings k before v result later after) :
      CreateEnd r k before result (later ++ [⟨r.creation d, .ok v⟩]) after

/-- How an update may end once something was seen. -/
inductive AmendEnd (k : Kind) (id : ObjectId) (before : Resource) :
    Except Stop Unit → List Exchange → Resource → Prop where
  /-- The trees cannot be expanded, or only a new object could take over the change. -/
  | refused {e : Error} : AmendEnd k id before (.error (.fault e)) [] before
  | unchanged {result : Except Stop Unit} {made : List Exchange} {after : Resource}
      (hchange : Reconciler.pendingChange k id before = .ok none)
      (hread : ReadEnd k before result made after) : AmendEnd k id before result made after
  | failed {change : Change} {e : Error}
      (hchange : Reconciler.pendingChange k id before = .ok (some change)) :
      AmendEnd k id before (.error (.fault e)) [⟨.change k id change, .error e⟩] before
  | changed {change : Change} {v : Json} {result : Except Stop Unit} {made : List Exchange}
      {after : Resource} (hchange : Reconciler.pendingChange k id before = .ok (some change))
      (hread : ReadEnd k before result made after) :
      AmendEnd k id before result (made ++ [⟨.change k id change, .ok v⟩]) after

/-- How an update may end. -/
inductive UpdateEnd (k : Kind) (before : Resource) :
    Except Stop Unit → List Exchange → Resource → Prop where
  | unrecorded {e : Error} : UpdateEnd k before (.error (.fault e)) [] before
  | unseen {stop : Stop} {made : List Exchange} {after : Resource} (hseen : before.seen = [])
      (hread : ReadEnd k before (.error stop) made after) :
      UpdateEnd k before (.error stop) made after
  | looked {id : ObjectId} {looks made : List Exchange} {mid after : Resource}
      {result : Except Stop Unit} (hid : before.Records k id) (hseen : before.seen = [])
      (hread : ReadEnd k before (.ok ()) looks mid)
      (hamend : AmendEnd k id mid result made after) :
      UpdateEnd k before result (made ++ looks) after
  | known {id : ObjectId} {made : List Exchange} {after : Resource} {result : Except Stop Unit}
      (hid : before.Records k id) (hseen : before.seen ≠ [])
      (hamend : AmendEnd k id before result made after) : UpdateEnd k before result made after

/-- How a deletion may end. -/
inductive DeleteEnd (k : Kind) (before : Resource) :
    Except Stop Unit → List Exchange → Resource → Prop where
  | unrecorded {e : Error} : DeleteEnd k before (.error (.fault e)) [] before
  | failed {id : ObjectId} {e : Error} (hid : before.Records k id) :
      DeleteEnd k before (.error (.fault e)) [⟨.delete k id, .error e⟩] before
  | deleted {id : ObjectId} (hid : before.Records k id) :
      DeleteEnd k before (.ok ()) [⟨.delete k id, .ok ()⟩] (before.setId none)

/-- How a probe may end, which leaves the resource as it is. -/
inductive ProbeEnd (k : Kind) (before : Resource) : Except Stop Bool → List Exchange → Prop where
  | unrecorded {e : Error} : ProbeEnd k before (.error (.fault e)) []
  | found {id : ObjectId} {v : Json} (hid : before.Records k id) :
      ProbeEnd k before (.ok true) [⟨.get k id, .ok v⟩]
  | absent {id : ObjectId} {e : Error} (hid : before.Records k id) (habsent : e.isNotFound = true) :
      ProbeEnd k before (.ok false) [⟨.get k id, .error e⟩]
  | failed {id : ObjectId} {e : Error} (hid : before.Records k id) (hfault : e.isNotFound = false) :
      ProbeEnd k before (.error (.fault e)) [⟨.get k id, .error e⟩]

theorem Pending.append {k : Kind} {id : ObjectId} {goal : Goal} {later made : List Exchange}
    (hlater : Pending k id goal later) (hmade : Pending k id goal made) :
    Pending k id goal (later ++ made) :=
  List.forall_mem_append.2 ⟨hlater, hmade⟩

/-- Pending reads before a wait are as good as pending reads of it. -/
theorem WaitEnd.after {k : Kind} {id : ObjectId} {goal : Goal} {result : Except Stop (Object k)}
    {later made : List Exchange} (h : WaitEnd k id goal result later)
    (hmade : Pending k id goal made) : WaitEnd k id goal result (later ++ made) := by
  cases h with
  | undecided hpending => exact .undecided (hpending.append hmade)
  | cancelled hpending => exact .cancelled (hpending.append hmade)
  | failed hpending => exact .failed (hpending.append hmade)
  | unreadable hpending hdecode => exact .unreadable (hpending.append hmade) hdecode
  | reached hpending hdecode hlabel => exact .reached (hpending.append hmade) hdecode hlabel
  | unexpected hpending hdecode hne hlabel =>
    exact .unexpected (hpending.append hmade) hdecode hne hlabel
  | late hpending hdecode hne hlabel hlate =>
    exact .late (hpending.append hmade) hdecode hne hlabel hlate

/-- Each of the exchanges is a read of one object or a question for its warnings. -/
def Asked (k : Kind) (id : ObjectId) (made : List Exchange) : Prop :=
  ∀ x ∈ made, x.request = .get k id ∨ x.request = .warnings k id

section

variable {k : Kind} {id : ObjectId} {made : List Exchange}

theorem asked_nil : Asked k id [] := fun _ h => absurd h List.not_mem_nil

theorem Asked.append {later : List Exchange} (hlater : Asked k id later) (hmade : Asked k id made) :
    Asked k id (later ++ made) :=
  List.forall_mem_append.2 ⟨hlater, hmade⟩

theorem Asked.get (h : Asked k id made) (reply : Except Error Json) :
    Asked k id (⟨.get k id, reply⟩ :: made) :=
  List.forall_mem_cons.2 ⟨.inl rfl, h⟩

theorem Asked.warnings (h : Asked k id made) (reply : Except Error (List Warning)) :
    Asked k id (⟨.warnings k id, reply⟩ :: made) :=
  List.forall_mem_cons.2 ⟨.inr rfl, h⟩

theorem Pending.gets {goal : Goal} (h : Pending k id goal made) :
    ∀ x ∈ made, x.request = .get k id := by
  intro x hx
  obtain ⟨v, o, rfl, -⟩ := h x hx
  rfl

/-- A wait only reads the one object. -/
theorem WaitEnd.gets {goal : Goal} {result : Except Stop (Object k)}
    (h : WaitEnd k id goal result made) : ∀ x ∈ made, x.request = .get k id := by
  cases h with
  | undecided hpending => exact hpending.gets
  | cancelled hpending => exact hpending.gets
  | failed hpending => exact List.forall_mem_cons.2 ⟨rfl, hpending.gets⟩
  | unreadable hpending => exact List.forall_mem_cons.2 ⟨rfl, hpending.gets⟩
  | reached hpending => exact List.forall_mem_cons.2 ⟨rfl, hpending.gets⟩
  | unexpected hpending => exact List.forall_mem_cons.2 ⟨rfl, hpending.gets⟩
  | late hpending => exact List.forall_mem_cons.2 ⟨rfl, hpending.gets⟩

theorem WaitEnd.asked {goal : Goal} {result : Except Stop (Object k)}
    (h : WaitEnd k id goal result made) : Asked k id made := fun x hx => .inl (h.gets x hx)

theorem ExplainedEnd.asked {goal : Goal} {result : Except Stop (Object k)}
    (h : ExplainedEnd k id goal result made) : Asked k id made := by
  cases h with
  | plain hwait => exact hwait.asked
  | explained hwait => exact hwait.asked.warnings _
  | unexplained hwait => exact hwait.asked.warnings _

theorem AwaitEnd.asked {settings : Settings} {created : Object k} {result : Except Stop Unit}
    (h : AwaitEnd settings created id result made) : Asked k id made := by
  cases h with
  | uncounted => exact asked_nil
  | counted hcount htimeout hwait => exact hwait.asked

/-- A read asks for the recorded identity. -/
theorem ReadEnd.asked {before after : Resource} {result : Except Stop Unit}
    (h : ReadEnd k before result made after) (hid : ∀ other, before.Records k other → other = id) :
    Asked k id made := by
  cases h with
  | unrecorded => exact asked_nil
  | failed hread => exact hid _ hread ▸ asked_nil.get _
  | unreadable hread => exact hid _ hread ▸ asked_nil.get _
  | taken hread => exact hid _ hread ▸ asked_nil.get _

theorem Resource.Records.unique {before : Resource} {other : ObjectId} (h : before.Records k id)
    (hother : before.Records k other) : other = id := by
  obtain ⟨text, htext, hid⟩ := h
  obtain ⟨text', htext', hid'⟩ := hother
  rw [htext] at htext'
  cases htext'
  exact Except.ok.inj (hid'.symm.trans hid)

theorem Object.scope_id {o : Object k} (h : o.id = .ok id) : id.scope = k.scope := by
  unfold Object.id at h
  split at h
  · cases h
  · rename_i hscope
    cases h
    exact hscope.symm
  · rename_i hscope _
    cases h
    exact hscope.symm
  · cases h

/-- The recorded identity of an object is not read as another one. -/
theorem Object.eq_of_records {o : Object k} (hid : o.id = .ok id) {before : Resource}
    {other : ObjectId} (h : (before.setId (some id.text)).Records k other) : other = id := by
  obtain ⟨text, htext, hdecode⟩ := h
  obtain rfl : id.text = text := Option.some.inj htext
  rw [ObjectId.decode_eq_ok, ← Object.scope_id hid] at hdecode
  exact ObjectId.ofText?_text hdecode

/-- Taking over a new object only asks for it. -/
theorem TakeOverEnd.asked {settings : Settings} {before after : Resource} {v : Json}
    {result : Except Stop Unit} (h : TakeOverEnd settings k before v result made after) :
    ∃ id, Asked k id made := by
  cases h with
  | unreadable => exact ⟨⟨none, ""⟩, asked_nil⟩
  | unidentified => exact ⟨⟨none, ""⟩, asked_nil⟩
  | @unready _ id _ _ _ _ hwait => exact ⟨id, hwait.asked⟩
  | @awaited _ id _ _ _ _ _ hid hwait hread =>
    exact ⟨id, (hread.asked fun _ => Object.eq_of_records hid).append hwait.asked⟩

end

namespace Reconciler

open Operation

variable (r : Reconciler σ) (k : Kind)

section

variable (id : ObjectId) (goal : Goal)

/-- A look asks for the object once, and a label that it shows is read off the reply. -/
theorem refresh_chronicled (world : Chronicle σ) :
    ∃ reply, ((r.chronicled.readinessWait k id goal).refresh world).2.exchanges =
        ⟨.get k id, reply⟩ :: world.exchanges ∧
      ((r.chronicled.readinessWait k id goal).refresh world).1 = do
        let o ← Object.decode k (← reply)
        return (o, o.readyLabel) :=
  ⟨_, rfl, rfl⟩

theorem shown_of_refresh {world : Chronicle σ} {o : Object k} {label : String}
    (h : ((r.chronicled.readinessWait k id goal).refresh world).1 = .ok (o, label)) :
    ∃ v, ((r.chronicled.readinessWait k id goal).refresh world).2.exchanges =
        ⟨.get k id, .ok v⟩ :: world.exchanges ∧
      Object.decode k v = .ok o ∧ o.readyLabel = label := by
  obtain ⟨reply, hmade, hlook⟩ := refresh_chronicled r k id goal world
  obtain ⟨v, rfl, hdecoded⟩ := Outcome.bind_eq_ok.1 (hlook.symm.trans h)
  obtain ⟨o', hdecode, hpair⟩ := Outcome.bind_eq_ok.1 hdecoded
  cases hpair
  exact ⟨v, hmade, hdecode, rfl⟩

/-- What a look decides ends the wait. -/
theorem ends_of_decides {start : Int} {world : Chronicle σ} {result : Except Error (Object k)}
    (h : (r.chronicled.readinessWait k id goal).Decides start world result) :
    ∃ made, ((r.chronicled.readinessWait k id goal).refresh world).2.exchanges =
        made ++ world.exchanges ∧ WaitEnd k id goal (result.mapError .fault) made := by
  have hnone : Pending k id goal [] := List.forall_mem_nil _
  cases h with
  | failed hreply =>
    obtain ⟨reply, hmade, hlook⟩ := refresh_chronicled r k id goal world
    rw [hlook] at hreply
    cases reply with
    | error e =>
      cases hreply
      exact ⟨[_], hmade, .failed hnone⟩
    | ok v =>
      cases hdecode : Object.decode k v with
      | error e =>
        rw [Outcome.ok_bind, hdecode] at hreply
        cases hreply
        exact ⟨[_], hmade, .unreadable hnone hdecode⟩
      | ok o =>
        rw [Outcome.ok_bind, hdecode] at hreply
        cases hreply
  | reached hreply =>
    obtain ⟨v, hmade, hdecode, hlabel⟩ := shown_of_refresh r k id goal hreply
    exact ⟨[_], hmade, .reached hnone hdecode hlabel⟩
  | unexpected hreply hne hlabel =>
    obtain ⟨v, hmade, hdecode, rfl⟩ := shown_of_refresh r k id goal hreply
    exact ⟨[_], hmade, .unexpected hnone hdecode hne hlabel⟩
  | late hshows hlate =>
    obtain ⟨⟨o, hreply⟩, hne, hlabel⟩ := hshows
    obtain ⟨v, hmade, hdecode, rfl⟩ := shown_of_refresh r k id goal hreply
    exact ⟨[_], hmade, .late hnone hdecode hne hlabel hlate⟩

/-- A look that leaves the wait undecided reads a pending label. -/
theorem pending_of_defers {start : Int} {world : Chronicle σ}
    (h : (r.chronicled.readinessWait k id goal).Defers start world) :
    ∃ made, ((r.chronicled.readinessWait k id goal).refresh world).2.exchanges =
        made ++ world.exchanges ∧ Pending k id goal made := by
  obtain ⟨⟨label, ⟨o, hreply⟩, hne, hlabel⟩, -⟩ := h
  obtain ⟨v, hmade, hdecode, rfl⟩ := shown_of_refresh r k id goal hreply
  exact ⟨[_], hmade, List.forall_mem_singleton.2 ⟨v, o, rfl, hdecode, hlabel, hne⟩⟩

theorem ends_walk {start : Int} {limit : Nat} {delay : Duration} {world after : Chronicle σ}
    {moves : List (Move (Chronicle σ))} {result : Except Stop (Object k)}
    (h : (r.chronicled.readinessWait k id goal).Walk start limit delay world moves result after) :
    ∃ made, after.exchanges = made ++ world.exchanges ∧ WaitEnd k id goal result made := by
  induction h with
  | spent => exact ⟨[], rfl, .undecided (List.forall_mem_nil _)⟩
  | cancelled => exact ⟨[], rfl, .cancelled (List.forall_mem_nil _)⟩
  | decided _ hdecides => exact ends_of_decides r k id goal hdecides
  | interrupted _ hdefers =>
    obtain ⟨made, hmade, hpending⟩ := pending_of_defers r k id goal hdefers
    exact ⟨made, hmade, .cancelled hpending⟩
  | again _ hdefers _ _ ih =>
    obtain ⟨made, hmade, hpending⟩ := pending_of_defers r k id goal hdefers
    obtain ⟨later, hlater, hend⟩ := ih
    refine ⟨later ++ made, ?_, hend.after hpending⟩
    rw [List.append_assoc, ← hmade]
    exact hlater

theorem ends_run (limit : Nat) (world : Chronicle σ) :
    ∃ made, ((r.chronicled.readinessWait k id goal).run limit world).2.exchanges =
        made ++ world.exchanges ∧
      WaitEnd k id goal ((r.chronicled.readinessWait k id goal).run limit world).1 made :=
  ends_walk r k id goal ((r.chronicled.readinessWait k id goal).walk_run limit world)

theorem ends_runExplained (warningLimit limit : Nat) (world : Chronicle σ) :
    ∃ made, ((r.chronicled.readinessWait k id goal).runExplained
          (r.chronicled.store.answer (.warnings k id)) warningLimit limit world).2.exchanges =
        made ++ world.exchanges ∧
      ExplainedEnd k id goal ((r.chronicled.readinessWait k id goal).runExplained
        (r.chronicled.store.answer (.warnings k id)) warningLimit limit world).1 made := by
  obtain ⟨made, hmade, hend⟩ := ends_run r k id goal limit world
  unfold Wait.runExplained
  split
  · rename_i world' hrun
    rw [hrun] at hmade hend
    obtain ⟨reply, state, hasked⟩ : ∃ reply state,
        r.chronicled.store.answer (.warnings k id) world' =
          (reply, ⟨state, ⟨.warnings k id, reply⟩ :: world'.exchanges⟩) := ⟨_, _, rfl⟩
    rw [hasked]
    refine ⟨⟨.warnings k id, reply⟩ :: made, ?_, ?_⟩
    · cases reply <;> exact congrArg (_ :: ·) hmade
    · cases reply with
      | ok warnings => exact .explained hend
      | error e => exact .unexplained hend
  · exact ⟨made, hmade, .plain hend⟩

end

theorem ends_awaitReady {k : Kind} (created : Object k) (id : ObjectId) (before : Resource) :
    (r.chronicled.awaitReady id created).Ensures before fun result made after =>
      after = before ∧ AwaitEnd r.settings created id result made := by
  unfold awaitReady
  split
  · rename_i count timeout hcount htimeout
    refine Ensures.bind (P := fun result made after => after = before ∧
      ExplainedEnd k id (.ofCount count.target timeout) result made)
      (ensures_inWorld fun world => ?_) ?_ ?_
    · obtain ⟨made, hmade, hend⟩ := ends_runExplained r k id (.ofCount count.target timeout)
        r.settings.warningLimit r.patience world
      exact ⟨made, hmade, rfl, hend⟩
    · rintro live made mid ⟨rfl, hend⟩
      exact ensures_pure ⟨rfl, .counted hcount htimeout hend⟩
    · rintro stop made after ⟨rfl, hend⟩
      exact ⟨rfl, .counted hcount htimeout hend⟩
  · rename_i hnone
    refine ensures_pure ⟨rfl, .uncounted ?_⟩
    cases hcount : created.readiness with
    | none => exact .inl rfl
    | some count =>
      cases htimeout : r.settings.readinessTimeout k with
      | none => exact .inr rfl
      | some timeout => exact absurd htimeout (hnone count timeout hcount)

theorem ends_takeOver (before : Resource) (v : Json) :
    (r.chronicled.takeOver k v).Ensures before (TakeOverEnd r.settings k before v) := by
  refine ensures_require_bind (fun o ho => ?_) fun e he => .unreadable he
  refine ensures_require_bind (fun id hid => ?_) fun e he => .unidentified ho he
  refine ensures_keep_bind ?_
  refine (ends_awaitReady r o id _).bind ?_ ?_
  · rintro ⟨⟩ waited mid ⟨rfl, hwait⟩
    exact (ensures_read r k _).mono fun _ _ _ hread => .awaited ho hid hwait hread
  · rintro stop waited after ⟨rfl, hwait⟩
    exact .unready ho hid hwait

theorem ends_create (before : Resource) :
    (r.chronicled.create k).Ensures before (CreateEnd r k before) := by
  rw [create_eq]
  refine ensures_resource_bind ?_
  refine ensures_require_bind (fun d hexpand => ?_) fun e hexpand => .malformed hexpand
  refine ensures_send_bind (fun v => ?_) fun e => .failed hexpand
  exact (ends_takeOver r k before v).mono fun _ _ _ htaken => .made hexpand htaken

theorem ends_amend (id : ObjectId) (before : Resource) :
    (r.chronicled.amend k id).Ensures before (AmendEnd k id before) := by
  refine ensures_resource_bind ?_
  refine ensures_require_bind (fun fields _ => ?_) fun e _ => .refused
  split
  · exact ensures_require_bind (fun _ h => by cases h) fun e _ => .refused
  · refine ensures_resource_bind ?_
    refine ensures_require_bind (fun change? hchange => ?_) fun e _ => .refused
    cases change? with
    | none => exact (ensures_read r k before).mono fun _ _ _ hread => .unchanged hchange hread
    | some change =>
      refine ensures_send_bind (fun v => ?_) fun e => .failed hchange
      exact (ensures_read r k before).mono fun _ _ _ hread => .changed hchange hread

theorem ends_update (before : Resource) :
    (r.chronicled.update k).Ensures before (UpdateEnd k before) := by
  rw [update_eq]
  refine ensures_recordedId_bind (fun id hid => ?_) fun e _ _ => .unrecorded
  refine ensures_resource_bind ?_
  split
  · rename_i hlooked
    have hseen : before.seen = [] := by simpa using hlooked
    refine (ensures_read r k before).bind (fun _ looks mid hread => ?_)
      fun stop made after hread => .unseen hseen hread
    exact (ends_amend r k id mid).mono fun _ _ _ hamend => .looked hid hseen hread hamend
  · rename_i hlooked
    have hseen : before.seen ≠ [] := by simpa using hlooked
    exact (ends_amend r k id before).mono fun _ _ _ hamend => .known hid hseen hamend

theorem ends_delete (before : Resource) :
    (r.chronicled.delete k).Ensures before (DeleteEnd k before) := by
  refine ensures_recordedId_bind (fun id hid => ?_) fun e _ _ => .unrecorded
  refine ensures_send_bind (fun _ => ?_) fun e => .failed hid
  exact ensures_keep (.deleted hid)

theorem ends_probe (before : Resource) :
    (r.chronicled.probe k).Ensures before fun result made after =>
      after = before ∧ ProbeEnd k before result made := by
  refine ensures_recordedId_bind (fun id hid => ?_) fun e _ _ => ⟨rfl, .unrecorded⟩
  refine ensures_inWorld fun world => ?_
  obtain ⟨reply, state, hasked⟩ : ∃ reply state,
      r.chronicled.store.answer (.get k id) world =
        (reply, ⟨state, ⟨.get k id, reply⟩ :: world.exchanges⟩) := ⟨_, _, rfl⟩
  rw [hasked]
  refine ⟨[⟨.get k id, reply⟩], ?_⟩
  cases reply with
  | ok v => exact ⟨rfl, rfl, .found hid⟩
  | error e =>
    cases hfound : e.isNotFound with
    | true => exact ⟨rfl, rfl, by simpa [hfound] using .absent hid hfound⟩
    | false => exact ⟨rfl, rfl, by simpa [hfound] using .failed hid hfound⟩

end Reconciler

end DesiredState
