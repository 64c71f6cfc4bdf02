import DesiredState.Proofs.Readiness.Explanation
import DesiredState.Proofs.Reconcile.Ending
import DesiredState.Proofs.Reconcile.Erasure

/-!
The calls that operations make.
An operation makes its calls in a fixed order, about one object, and at most
one of them may change what is stored. The first call that fails is the last
one, and its error is the result. Warnings are only asked for after a wait
that timed out.
-/
namespace DesiredState

variable {σ α β : Type}

/-- The errors that a call of a store may end with. -/
def Error.isCallFailure : Error → Bool
  | notFound _ | conflict _ | transport _ => true
  | _ => false

def Store.Plain (s : Store σ) : Prop :=
  ∀ request state e, (s.answer request state).1 = .error e → e.isCallFailure

def Exchange.Plain (x : Exchange) : Prop := ∀ e, x.reply = .error e → e.isCallFailure

def Succeeded (made : List Exchange) : Prop := ∀ x ∈ made, ∀ e, x.reply ≠ .error e

/-- Every call succeeded, or only the last one failed and the result is what its error is told
as. -/
inductive FailsLast (told : Error → Except Stop α) (result : Except Stop α) :
    List Exchange → Prop where
  | succeeded {made : List Exchange} (hmade : Succeeded made) : FailsLast told result made
  | failed {x : Exchange} {earlier : List Exchange} {e : Error} (hearlier : Succeeded earlier)
      (hreply : x.reply = .error e) (hresult : result = told e) :
      FailsLast told result (x :: earlier)

/-- The verbs of the exchanges in the order in which they were made. -/
def verbs (made : List Exchange) : List Verb := (made.map fun x => x.request.verb).reverse

/-- All calls are about the kind and name no other object than the one of an identity. -/
def Names (k : Kind) (id : ObjectId) (made : List Exchange) : Prop :=
  ∀ x ∈ made, x.request.kind = k ∧ ∀ other, x.request.id? = some other → other = id

/-- How an operation on a kind makes its calls: the first failure ends it, the verbs begin one of
the given schedules, and all calls but the making of an object name the same one. -/
structure Orderly (k : Kind) (schedule : List Verb → Prop) (told : Error → Except Stop α)
    (result : Except Stop α) (made : List Exchange) : Prop where
  failsLast : FailsLast told result made
  scheduled : ∃ whole, schedule whole ∧ verbs made <+: whole
  oneWrite : made.countP (fun x => x.request.isWrite) ≤ 1
  oneObject : ∃ id, Names k id made

/-- A failure of a call is the result as it is. -/
def asFault (e : Error) : Except Stop α := .error (.fault e)

/-- A failure of a call is the result of a probe unless it is that the object is missing. -/
def asAbsence (e : Error) : Except Stop Bool :=
  if e.isNotFound then .ok false else .error (.fault e)

/-- The object is made and read until it is ready, which ends with a question for warnings or with
a last read. -/
def createSchedule (whole : List Verb) : Prop :=
  ∃ n last, (last = .warnings ∨ last = .get) ∧
    whole = .create :: (List.replicate n .get ++ [last])

/-- The object is read first if nothing was seen, perhaps changed, and read. -/
def updateSchedule (before : Resource) (whole : List Verb) : Prop :=
  ∃ sent, (sent = [] ∨ sent = [.change]) ∧
    whole = (if before.seen = [] then [.get] else []) ++ sent ++ [.get]

/-- The wait for the object that a creation makes from a state of the store ends with a timeout. -/
def Reconciler.TimesOut (r : Reconciler σ) (k : Kind) (before : Resource) (state : σ) : Prop :=
  ∃ (d created : Object k) (v : Json) (id : ObjectId) (count : ReadyCount) (timeout : Duration)
    (target : String) (last : Option String) (waited : Duration) (events : String),
    Object.expand k before.desired = .ok d ∧
    (r.store.answer (r.creation d) state).1 = .ok v ∧
    Object.decode k v = .ok created ∧ created.id = .ok id ∧ created.readiness = some count ∧
    r.settings.readinessTimeout k = some timeout ∧
    ((r.readinessWait k id (.ofCount count.target timeout)).run r.patience
      (r.store.answer (r.creation d) state).2).1 =
        .error (.fault (.timeout target last waited events))

section

variable {k : Kind} {id : ObjectId} {made later earlier : List Exchange}
  {told : Error → Except Stop α} {result : Except Stop α}

theorem succeeded_nil : Succeeded [] := fun _ h => absurd h List.not_mem_nil

theorem Succeeded.append (hlater : Succeeded later) (hmade : Succeeded made) :
    Succeeded (later ++ made) :=
  List.forall_mem_append.2 ⟨hlater, hmade⟩

theorem Succeeded.cons {request : Request} {v : request.Reply} (hmade : Succeeded made) :
    Succeeded (⟨request, .ok v⟩ :: made) :=
  List.forall_mem_cons.2 ⟨nofun, hmade⟩

theorem Pending.succeeded {goal : Goal} (h : Pending k id goal made) : Succeeded made := by
  intro x hx
  obtain ⟨v, o, rfl, -⟩ := h x hx
  exact nofun

theorem FailsLast.append (h : FailsLast told result later) (hmade : Succeeded made) :
    FailsLast told result (later ++ made) := by
  cases h with
  | succeeded hlater => exact .succeeded (hlater.append hmade)
  | failed hearlier hreply hresult => exact .failed (hearlier.append hmade) hreply hresult

/-- If the result cannot be told from any failure then there was none. -/
theorem FailsLast.succeeds (h : FailsLast told result made) (hresult : ∀ e, result ≠ told e) :
    Succeeded made := by
  cases h with
  | succeeded hmade => exact hmade
  | failed _ _ hfailed => exact absurd hfailed (hresult _)

theorem FailsLast.map {f : α → β} (h : FailsLast asFault result made) :
    FailsLast asFault (result.map f) made := by
  cases h with
  | succeeded hmade => exact .succeeded hmade
  | failed hearlier hreply hresult =>
    refine .failed hearlier hreply ?_
    rw [hresult]
    rfl

theorem WaitEnd.failsLast {goal : Goal} {result : Except Stop (Object k)}
    (h : WaitEnd k id goal result made) : FailsLast asFault result made := by
  cases h with
  | undecided hpending => exact .succeeded hpending.succeeded
  | cancelled hpending => exact .succeeded hpending.succeeded
  | failed hpending => exact .failed hpending.succeeded rfl rfl
  | unreadable hpending => exact .succeeded hpending.succeeded.cons
  | reached hpending => exact .succeeded hpending.succeeded.cons
  | unexpected hpending => exact .succeeded hpending.succeeded.cons
  | late hpending => exact .succeeded hpending.succeeded.cons

/-- A wait only times out when no call failed. -/
theorem WaitEnd.succeeded_of_timeout {goal : Goal} {target events : String}
    {last : Option String} {waited : Duration}
    (h : WaitEnd k id goal (.error (.fault (.timeout target last waited events))) made)
    (hplain : ∀ x ∈ made, x.Plain) : Succeeded made := by
  cases h with
  | failed hpending =>
    have hfailure := hplain _ List.mem_cons_self _ rfl
    cases hfailure
  | unreadable hpending => exact hpending.succeeded.cons
  | late hpending => exact hpending.succeeded.cons

theorem ExplainedEnd.failsLast {goal : Goal} {result : Except Stop (Object k)}
    (h : ExplainedEnd k id goal result made) (hplain : ∀ x ∈ made, x.Plain) :
    FailsLast asFault result made := by
  cases h with
  | plain hwait => exact hwait.failsLast
  | explained hwait =>
    exact .succeeded (hwait.succeeded_of_timeout fun x hx => hplain x (.tail _ hx)).cons
  | unexplained hwait =>
    exact .failed (hwait.succeeded_of_timeout fun x hx => hplain x (.tail _ hx)) rfl rfl

variable {before after : Resource} {outcome : Except Stop Unit}

theorem AwaitEnd.failsLast {settings : Settings} {created : Object k}
    (h : AwaitEnd settings created id outcome made) (hplain : ∀ x ∈ made, x.Plain) :
    FailsLast asFault outcome made := by
  cases h with
  | uncounted => exact .succeeded succeeded_nil
  | counted hcount htimeout hwait => exact (hwait.failsLast hplain).map

theorem ReadEnd.failsLast (h : ReadEnd k before outcome made after) :
    FailsLast asFault outcome made := by
  cases h with
  | unrecorded => exact .succeeded succeeded_nil
  | failed => exact .failed succeeded_nil rfl rfl
  | unreadable => exact .succeeded succeeded_nil.cons
  | taken => exact .succeeded succeeded_nil.cons

theorem TakeOverEnd.failsLast {settings : Settings} {v : Json}
    (h : TakeOverEnd settings k before v outcome made after) (hplain : ∀ x ∈ made, x.Plain) :
    FailsLast asFault outcome made := by
  cases h with
  | unreadable => exact .succeeded succeeded_nil
  | unidentified => exact .succeeded succeeded_nil
  | unready hdecode hid hwait => exact hwait.failsLast hplain
  | awaited hdecode hid hwait hread =>
    have hwaited := hwait.failsLast fun x hx => hplain x (List.mem_append_right _ hx)
    exact hread.failsLast.append (hwaited.succeeds nofun)

theorem CreateEnd.failsLast {r : Reconciler σ} (h : CreateEnd r k before outcome made after)
    (hplain : ∀ x ∈ made, x.Plain) : FailsLast asFault outcome made := by
  cases h with
  | malformed => exact .succeeded succeeded_nil
  | failed => exact .failed succeeded_nil rfl rfl
  | made hexpand htaken =>
    have htaken := htaken.failsLast fun x hx => hplain x (List.mem_append_left _ hx)
    exact htaken.append succeeded_nil.cons

theorem AmendEnd.failsLast (h : AmendEnd k id before outcome made after) :
    FailsLast asFault outcome made := by
  cases h with
  | refused => exact .succeeded succeeded_nil
  | unchanged hchange hread => exact hread.failsLast
  | failed => exact .failed succeeded_nil rfl rfl
  | changed hchange hread => exact hread.failsLast.append succeeded_nil.cons

theorem UpdateEnd.failsLast (h : UpdateEnd k before outcome made after) :
    FailsLast asFault outcome made := by
  cases h with
  | unrecorded => exact .succeeded succeeded_nil
  | unseen hseen hread => exact hread.failsLast
  | looked hid hseen hread hamend =>
    exact hamend.failsLast.append (hread.failsLast.succeeds nofun)
  | known hid hseen hamend => exact hamend.failsLast

theorem verbs_append (later made : List Exchange) :
    verbs (later ++ made) = verbs made ++ verbs later := by
  simp [verbs]

theorem verbs_cons (x : Exchange) (made : List Exchange) :
    verbs (x :: made) = verbs made ++ [x.request.verb] := by
  simp [verbs]

theorem verbs_of_gets (h : ∀ x ∈ made, x.request = .get k id) :
    verbs made = List.replicate made.length .get := by
  refine List.eq_replicate_iff.2 ⟨by simp [verbs], fun verb hverb => ?_⟩
  obtain ⟨x, hx, rfl⟩ := List.mem_map.1 (List.mem_reverse.1 hverb)
  rw [h x hx]
  rfl

theorem verbs_of_warned (h : ∀ x ∈ made, x.request = .get k id)
    (reply : Except Error (List Warning)) :
    verbs (⟨.warnings k id, reply⟩ :: made) = List.replicate made.length .get ++ [.warnings] := by
  rw [verbs_cons, verbs_of_gets h]
  rfl

/-- Reads are made, and what may follow them is a question for warnings after a failure. -/
theorem ExplainedEnd.verbs_eq {goal : Goal} {result : Except Stop (Object k)}
    (h : ExplainedEnd k id goal result made) :
    ∃ n, verbs made = List.replicate n .get ∨
      verbs made = List.replicate n .get ++ [.warnings] ∧ ∃ stop, result = .error stop := by
  cases h with
  | plain hwait => exact ⟨_, .inl (verbs_of_gets hwait.gets)⟩
  | explained hwait => exact ⟨_, .inr ⟨verbs_of_warned hwait.gets _, _, rfl⟩⟩
  | unexplained hwait => exact ⟨_, .inr ⟨verbs_of_warned hwait.gets _, _, rfl⟩⟩

theorem AwaitEnd.verbs_eq {settings : Settings} {created : Object k}
    (h : AwaitEnd settings created id outcome made) :
    ∃ n, verbs made = List.replicate n .get ∨
      verbs made = List.replicate n .get ++ [.warnings] ∧ ∃ stop, outcome = .error stop := by
  cases h with
  | uncounted => exact ⟨0, .inl rfl⟩
  | counted hcount htimeout hwait =>
    obtain ⟨n, hverbs⟩ := hwait.verbs_eq
    refine ⟨n, hverbs.imp_right fun hwarned => ⟨hwarned.1, ?_⟩⟩
    obtain ⟨-, stop, rfl⟩ := hwarned
    exact ⟨stop, rfl⟩

theorem ReadEnd.verbs_begin (h : ReadEnd k before outcome made after) :
    verbs made <+: [.get] := by
  cases h with
  | unrecorded => exact List.nil_prefix
  | failed => exact List.prefix_rfl
  | unreadable => exact List.prefix_rfl
  | taken => exact List.prefix_rfl

theorem ReadEnd.verbs_of_ok (h : ReadEnd k before (.ok ()) made after) : verbs made = [.get] := by
  cases h with
  | taken => rfl

theorem TakeOverEnd.verbs_begin {settings : Settings} {v : Json}
    (h : TakeOverEnd settings k before v outcome made after) :
    ∃ n last, (last = .warnings ∨ last = .get) ∧
      verbs made <+: List.replicate n .get ++ [last] := by
  cases h with
  | unreadable => exact ⟨0, .get, .inr rfl, List.nil_prefix⟩
  | unidentified => exact ⟨0, .get, .inr rfl, List.nil_prefix⟩
  | unready hdecode hid hwait =>
    obtain ⟨n, hverbs | ⟨hverbs, -⟩⟩ := hwait.verbs_eq
    · exact ⟨n, .get, .inr rfl, hverbs ▸ List.prefix_append _ _⟩
    · exact ⟨n, .warnings, .inl rfl, hverbs ▸ List.prefix_rfl⟩
  | awaited hdecode hid hwait hread =>
    obtain ⟨n, hverbs | ⟨-, stop, hfailed⟩⟩ := hwait.verbs_eq
    · refine ⟨n, .get, .inr rfl, ?_⟩
      rw [verbs_append, hverbs]
      exact (List.prefix_append_right_inj _).2 hread.verbs_begin
    · cases hfailed

theorem CreateEnd.scheduled {r : Reconciler σ} (h : CreateEnd r k before outcome made after) :
    ∃ whole, createSchedule whole ∧ verbs made <+: whole := by
  have hshort : createSchedule [.create, .get] := ⟨0, .get, .inr rfl, rfl⟩
  cases h with
  | malformed => exact ⟨_, hshort, List.nil_prefix⟩
  | failed => exact ⟨_, hshort, [.get], rfl⟩
  | made hexpand htaken =>
    obtain ⟨n, last, hlast, hbegins⟩ := htaken.verbs_begin
    refine ⟨_, ⟨n, last, hlast, rfl⟩, ?_⟩
    rw [verbs_append]
    exact (List.prefix_cons_inj .create).2 hbegins

theorem AmendEnd.verbs_begin (h : AmendEnd k id before outcome made after) :
    ∃ sent, (sent = [] ∨ sent = [.change]) ∧ verbs made <+: sent ++ [.get] := by
  cases h with
  | refused => exact ⟨[], .inl rfl, List.nil_prefix⟩
  | unchanged hchange hread => exact ⟨[], .inl rfl, hread.verbs_begin⟩
  | failed => exact ⟨[.change], .inr rfl, [.get], rfl⟩
  | changed hchange hread =>
    refine ⟨[.change], .inr rfl, ?_⟩
    rw [verbs_append]
    exact (List.prefix_append_right_inj [.change]).2 hread.verbs_begin

theorem UpdateEnd.scheduled (h : UpdateEnd k before outcome made after) :
    ∃ whole, updateSchedule before whole ∧ verbs made <+: whole := by
  cases h with
  | unrecorded => exact ⟨_, ⟨[], .inl rfl, rfl⟩, List.nil_prefix⟩
  | unseen hseen hread =>
    refine ⟨_, ⟨[], .inl rfl, rfl⟩, ?_⟩
    rw [if_pos hseen]
    exact hread.verbs_begin.trans (List.prefix_append _ _)
  | looked hid hseen hread hamend =>
    obtain ⟨sent, hsent, hbegins⟩ := hamend.verbs_begin
    refine ⟨_, ⟨sent, hsent, rfl⟩, ?_⟩
    rw [verbs_append, hread.verbs_of_ok, if_pos hseen, List.append_assoc]
    exact (List.prefix_append_right_inj [.get]).2 hbegins
  | known hid hseen hamend =>
    obtain ⟨sent, hsent, hbegins⟩ := hamend.verbs_begin
    refine ⟨_, ⟨sent, hsent, rfl⟩, ?_⟩
    rw [if_neg hseen]
    exact hbegins

theorem Asked.names (h : Asked k id made) : Names k id made := by
  intro x hx
  rcases h x hx with hget | hwarnings
  · rw [hget]
    exact ⟨rfl, fun other hother => (Option.some.inj hother).symm⟩
  · rw [hwarnings]
    exact ⟨rfl, fun other hother => (Option.some.inj hother).symm⟩

theorem names_creation (r : Reconciler σ) (d : Object k)
    (reply : Except Error (r.creation d).Reply) : Names k id [⟨r.creation d, reply⟩] :=
  List.forall_mem_singleton.2 ⟨rfl, nofun⟩

theorem names_change (change : Change) (reply : Except Error Json) :
    Names k id [⟨.change k id change, reply⟩] :=
  List.forall_mem_singleton.2 ⟨rfl, fun _ hother => (Option.some.inj hother).symm⟩

theorem Names.append (hlater : Names k id later) (hmade : Names k id made) :
    Names k id (later ++ made) :=
  List.forall_mem_append.2 ⟨hlater, hmade⟩

theorem CreateEnd.names {r : Reconciler σ} (h : CreateEnd r k before outcome made after) :
    ∃ id, Names k id made := by
  cases h with
  | malformed => exact ⟨⟨none, ""⟩, asked_nil.names⟩
  | failed => exact ⟨⟨none, ""⟩, names_creation r _ _⟩
  | made hexpand htaken =>
    obtain ⟨id, hasked⟩ := htaken.asked
    exact ⟨id, hasked.names.append (names_creation r _ _)⟩

theorem ReadEnd.names (h : ReadEnd k before outcome made after) : ∃ id, Names k id made := by
  by_cases hid : ∃ id, before.Records k id
  · obtain ⟨id, hid⟩ := hid
    exact ⟨id, (h.asked fun _ => hid.unique).names⟩
  · cases h with
    | unrecorded => exact ⟨⟨none, ""⟩, asked_nil.names⟩
    | failed hread => exact absurd ⟨_, hread⟩ hid
    | unreadable hread => exact absurd ⟨_, hread⟩ hid
    | taken hread => exact absurd ⟨_, hread⟩ hid

theorem AmendEnd.names (h : AmendEnd k id before outcome made after) (hid : before.Records k id) :
    Names k id made := by
  cases h with
  | refused => exact asked_nil.names
  | unchanged hchange hread => exact (hread.asked fun _ => hid.unique).names
  | failed => exact names_change _ _
  | changed hchange hread =>
    exact (hread.asked fun _ => hid.unique).names.append (names_change _ _)

theorem UpdateEnd.names (h : UpdateEnd k before outcome made after) : ∃ id, Names k id made := by
  cases h with
  | unrecorded => exact ⟨⟨none, ""⟩, asked_nil.names⟩
  | unseen hseen hread => exact hread.names
  | @looked id _ _ _ _ _ hid hseen hread hamend =>
    refine ⟨id, Names.append ?_ (hread.asked fun _ => hid.unique).names⟩
    cases hread with
    | taken =>
      obtain ⟨text, htext, hdecode⟩ := hid
      exact hamend.names ⟨text, (before.id?_refresh _).trans htext, hdecode⟩
  | @known id _ _ _ hid hseen hamend => exact ⟨id, hamend.names hid⟩

end

/-- The requests of a verb that may change what is stored. -/
def Verb.isWrite : Verb → Bool
  | .create | .change | .delete => true
  | .get | .warnings => false

theorem Orderly.of_schedule {k : Kind} {schedule : List Verb → Prop}
    {told : Error → Except Stop α} {result : Except Stop α} {made : List Exchange}
    (hfails : FailsLast told result made)
    (hscheduled : ∃ whole, schedule whole ∧ verbs made <+: whole)
    (hwrites : ∀ whole, schedule whole → whole.countP Verb.isWrite ≤ 1)
    (hnames : ∃ id, Names k id made) : Orderly k schedule told result made := by
  refine ⟨hfails, hscheduled, ?_, hnames⟩
  obtain ⟨whole, hwhole, hbegins⟩ := hscheduled
  have hcount : made.countP (fun x => x.request.isWrite) = (verbs made).countP Verb.isWrite := by
    rw [verbs, List.countP_reverse, List.countP_map]
    rfl
  rw [hcount]
  exact Nat.le_trans hbegins.sublist.countP_le (hwrites whole hwhole)

theorem Orderly.of_single {k : Kind} {verb : Verb} {told : Error → Except Stop α}
    {result : Except Stop α} {made : List Exchange} (hfails : FailsLast told result made)
    (hbegins : verbs made <+: [verb]) (hnames : ∃ id, Names k id made) :
    Orderly k (· = [verb]) told result made := by
  refine .of_schedule hfails ⟨_, rfl, hbegins⟩ (fun whole hwhole => ?_) hnames
  rw [hwhole]
  exact List.countP_le_length

/-- Without any call there is nothing to order. -/
theorem Orderly.of_nil {k : Kind} {verb : Verb} {told : Error → Except Stop α}
    {result : Except Stop α} : Orderly k (· = [verb]) told result [] :=
  .of_single (.succeeded succeeded_nil) List.nil_prefix ⟨⟨none, ""⟩, asked_nil.names⟩

theorem countP_createSchedule {whole : List Verb} (h : createSchedule whole) :
    whole.countP Verb.isWrite ≤ 1 := by
  obtain ⟨n, last, hlast, rfl⟩ := h
  have hreads : (List.replicate n Verb.get).countP Verb.isWrite = 0 := by simp [Verb.isWrite]
  rw [List.countP_cons, List.countP_append, hreads]
  rcases hlast with rfl | rfl <;> decide

theorem countP_updateSchedule {before : Resource} {whole : List Verb}
    (h : updateSchedule before whole) : whole.countP Verb.isWrite ≤ 1 := by
  obtain ⟨sent, hsent, rfl⟩ := h
  split <;> rcases hsent with rfl | rfl <;> decide

section

variable {k : Kind} {before after : Resource} {made : List Exchange} {outcome : Except Stop Unit}

theorem CreateEnd.orderly {r : Reconciler σ} (h : CreateEnd r k before outcome made after)
    (hplain : ∀ x ∈ made, x.Plain) : Orderly k createSchedule asFault outcome made :=
  .of_schedule (h.failsLast hplain) h.scheduled (fun _ => countP_createSchedule) h.names

theorem ReadEnd.orderly (h : ReadEnd k before outcome made after) :
    Orderly k (· = [.get]) asFault outcome made :=
  .of_single h.failsLast h.verbs_begin h.names

theorem UpdateEnd.orderly (h : UpdateEnd k before outcome made after) :
    Orderly k (updateSchedule before) asFault outcome made :=
  .of_schedule h.failsLast h.scheduled (fun _ => countP_updateSchedule) h.names

theorem DeleteEnd.orderly (h : DeleteEnd k before outcome made after) :
    Orderly k (· = [.delete]) asFault outcome made := by
  have hnames (id : ObjectId) (reply : Except Error Unit) : Names k id [⟨.delete k id, reply⟩] :=
    List.forall_mem_singleton.2 ⟨rfl, fun _ hother => (Option.some.inj hother).symm⟩
  cases h with
  | unrecorded => exact .of_nil
  | failed => exact .of_single (.failed succeeded_nil rfl rfl) List.prefix_rfl ⟨_, hnames _ _⟩
  | deleted => exact .of_single (.succeeded succeeded_nil.cons) List.prefix_rfl ⟨_, hnames _ _⟩

theorem ProbeEnd.orderly {found : Except Stop Bool} (h : ProbeEnd k before found made) :
    Orderly k (· = [.get]) asAbsence found made := by
  have hnames (id : ObjectId) (reply : Except Error Json) : Names k id [⟨.get k id, reply⟩] :=
    (asked_nil.get reply).names
  cases h with
  | unrecorded => exact .of_nil
  | found => exact .of_single (.succeeded succeeded_nil.cons) List.prefix_rfl ⟨_, hnames _ _⟩
  | absent hid habsent =>
    refine .of_single (.failed succeeded_nil rfl ?_) List.prefix_rfl ⟨_, hnames _ _⟩
    rw [asAbsence, if_pos habsent]
  | failed hid hfault =>
    refine .of_single (.failed succeeded_nil rfl ?_) List.prefix_rfl ⟨_, hnames _ _⟩
    rw [asAbsence, if_neg (by simp [hfault])]

theorem AdoptEnd.orderly (h : AdoptEnd k before outcome made after) :
    Orderly k (· = [.get]) asFault outcome made := by
  cases h with
  | malformed => exact .of_nil
  | dropped hread => exact hread.orderly
  | adopted hread => exact hread.orderly

end

theorem Cluster.isCallFailure_applyChange {object : Json} {change : Change} {e : Error}
    (h : Cluster.applyChange object change = .error e) : e.isCallFailure := by
  cases change with
  | merge v => cases h
  | steps steps =>
    simp only [Cluster.applyChange] at h
    cases hsteps : Patch.applyAll steps object with
    | some v =>
      rw [hsteps] at h
      cases h
    | none =>
      rw [hsteps] at h
      cases h
      rfl

theorem Cluster.plain_store : Cluster.store.Plain := by
  intro request c e he
  cases request with
  | create kind ns? object =>
    simp only [Cluster.store, Cluster.answer] at he
    split at he
    · cases he
      rfl
    · cases he
  | get kind id =>
    simp only [Cluster.store, Cluster.answer] at he
    split at he
    · cases he
    · cases he
      rfl
  | change kind id change =>
    simp only [Cluster.store, Cluster.answer] at he
    split at he
    · split at he
      · cases he
      · rename_i hchange
        cases he
        exact Cluster.isCallFailure_applyChange hchange
    · cases he
      rfl
  | delete kind id =>
    simp only [Cluster.store, Cluster.answer] at he
    split at he
    · cases he
    · cases he
      rfl
  | warnings kind id => cases he

theorem Rehearsal.isCallFailure_failure (status : Nat) :
    (Rehearsal.failure status).isCallFailure := by
  unfold Rehearsal.failure
  split
  · rfl
  · split <;> rfl

theorem Rehearsal.plain_store : Rehearsal.store.Plain := by
  intro request w e he
  simp only [Rehearsal.store, Rehearsal.answer] at he
  split at he
  · cases he
    exact Rehearsal.isCallFailure_failure _
  · split at he
    · cases he
    · exact Cluster.plain_store request _ e he

namespace Operation

/-- From a session on, an operation asks for no warnings. -/
def Quiet (m : Operation (Chronicle σ) α) (s : Session (Chronicle σ)) : Prop :=
  ∀ x ∈ (m.perform s).2.world.exchanges, x.request.verb = .warnings → x ∈ s.world.exchanges

theorem Quiet.bind {m : Operation (Chronicle σ) α} {f : α → Operation (Chronicle σ) β}
    {s : Session (Chronicle σ)} (h : m.Quiet s)
    (hnext : ∀ a, (m.perform s).1 = .ok a → (f a).Quiet (m.perform s).2) : (m >>= f).Quiet s := by
  intro x hx hverb
  rw [perform_bind] at hx
  unfold Quiet at h
  generalize m.perform s = run at h hnext hx
  obtain ⟨result, mid⟩ := run
  cases result with
  | error stop => exact h x hx hverb
  | ok a => exact h x (hnext a rfl x hx hverb) hverb

theorem Ensures.quiet {m : Operation (Chronicle σ) α} {before : Resource}
    {post : Except Stop α → List Exchange → Resource → Prop} (h : m.Ensures before post)
    (hpost : ∀ result made after, post result made after →
      ∀ x ∈ made, x.request.verb ≠ .warnings) (world : Chronicle σ) : m.Quiet ⟨before, world⟩ := by
  intro x hx hverb
  obtain ⟨made, hmade, hend⟩ := h world
  rw [hmade] at hx
  rcases List.mem_append.1 hx with hnew | hold
  · exact absurd hverb (hpost _ _ _ hend x hnew)
  · exact hold

theorem quiet_require (result : Except Error α) (s : Session (Chronicle σ)) :
    (require result).Quiet s :=
  fun _ hx _ => hx

end Operation

namespace Reconciler

open Operation

variable (r : Reconciler σ) {k : Kind}

theorem quiet_awaitReady {created : Object k} {id : ObjectId} {s : Session (Chronicle σ)}
    (h : ∀ count timeout target last waited events, created.readiness = some count →
      r.settings.readinessTimeout k = some timeout →
      ((r.readinessWait k id (.ofCount count.target timeout)).run r.patience s.world.state).1 ≠
        .error (.fault (.timeout target last waited events))) :
    (r.chronicled.awaitReady id created).Quiet s := by
  unfold awaitReady
  split
  · rename_i count timeout hcount htimeout
    refine Quiet.bind (fun x hx hverb => ?_) fun _ _ x hx _ => hx
    have hsame := congrArg Prod.fst
      (r.extends_chronicled.run k id (.ofCount count.target timeout) s.world)
    have hrun := Wait.runExplained_eq_run
      (r.chronicled.readinessWait k id (.ofCount count.target timeout))
      (r.chronicled.store.answer (.warnings k id)) r.settings.warningLimit r.patience s.world
      fun ⟨target, last, waited, events, htimedOut⟩ =>
        h count timeout target last waited events hcount htimeout (hsame.trans htimedOut)
    obtain ⟨made, hmade, hend⟩ := ends_run r k id (.ofCount count.target timeout) r.patience s.world
    have hx : x ∈ ((r.chronicled.readinessWait k id (.ofCount count.target timeout)).run
        r.patience s.world).2.exchanges := hrun ▸ hx
    rw [hmade] at hx
    rcases List.mem_append.1 hx with hnew | hold
    · rw [hend.gets x hnew] at hverb
      cases hverb
    · exact hold
  · exact fun x hx _ => hx

theorem quiet_read (k : Kind) (s : Session (Chronicle σ)) : (r.chronicled.read k).Quiet s := by
  refine (ensures_read r k s.resource).quiet (fun result made after hend x hx hverb => ?_) s.world
  have hmem : x.request.verb ∈ verbs made := List.mem_reverse.2 (List.mem_map_of_mem hx)
  have hget := List.mem_singleton.1 (hend.verbs_begin.subset hmem)
  rw [hverb] at hget
  cases hget

/-- If its wait does not time out, a creation asks for no warnings. -/
theorem quiet_create {before : Resource} {state : σ} (h : ¬ r.TimesOut k before state) :
    (r.chronicled.create k).Quiet ⟨before, ⟨state, []⟩⟩ := by
  rw [create_eq]
  refine Quiet.bind (fun x hx _ => hx) fun _ hresource => ?_
  cases hresource
  refine (quiet_require _ _).bind fun d hexpand => ?_
  refine Quiet.bind (fun x hx hverb => ?_) fun v hanswer => ?_
  · rcases List.mem_cons.1 hx with rfl | hold
    · cases hverb
    · exact hold
  · refine (quiet_require _ _).bind fun created hdecode => ?_
    refine (quiet_require _ _).bind fun id hid => ?_
    refine Quiet.bind (fun x hx _ => hx) fun _ _ => ?_
    refine (quiet_awaitReady r ?_).bind fun _ _ => quiet_read r k _
    intro count timeout target last waited events hcount htimeout hrun
    exact h ⟨d, created, v, id, count, timeout, target, last, waited, events,
      Outcome.mapError_eq_ok.1 hexpand, Outcome.mapError_eq_ok.1 hanswer,
      Outcome.mapError_eq_ok.1 hdecode, Outcome.mapError_eq_ok.1 hid, hcount, htimeout, hrun⟩

/-- With a store that fails as calls do, each operation makes its calls in order: the first one that
fails is the last one and its error is the result, but for a missing object that a probe looks for.
A creation only asks for warnings if its wait timed out. -/
theorem operations_orderly (hstore : r.store.Plain) (k : Kind) (before : Resource) :
    ((r.chronicled.create k).Ensures before fun result made _ =>
      Orderly k createSchedule asFault result made) ∧
    (∀ state, ∀ x ∈ (r.account (.create k) before state).2.world.exchanges,
      x.request.verb = .warnings → r.TimesOut k before state) ∧
    ((r.chronicled.read k).Ensures before fun result made _ =>
      Orderly k (· = [.get]) asFault result made) ∧
    ((r.chronicled.update k).Ensures before fun result made _ =>
      Orderly k (updateSchedule before) asFault result made) ∧
    ((r.chronicled.delete k).Ensures before fun result made _ =>
      Orderly k (· = [.delete]) asFault result made) ∧
    ((r.chronicled.probe k).Ensures before fun result made _ =>
      Orderly k (· = [.get]) asAbsence result made) ∧
    ∀ text, (r.chronicled.adopt k text).Ensures before fun result made _ =>
      Orderly k (· = [.get]) asFault result made := by
  have hplain : ∀ request state, Exchange.Plain ⟨request, (r.store.answer request state).1⟩ :=
    fun request state e he => hstore request state e he
  refine ⟨?_, ?_, ?_, ?_, ?_, ?_, fun text => ?_⟩
  · have hends := ((r.chronicled.actsThrough_create k).ensures_answered hplain
      (ends_create r k before))
    exact hends.mono fun _ _ _ h => h.1.orderly h.2
  · intro state x hx hverb
    refine Classical.byContradiction fun htimesOut => ?_
    exact absurd (quiet_create r htimesOut x hx hverb) List.not_mem_nil
  · exact (ensures_read r k before).mono fun _ _ _ h => h.orderly
  · exact (ends_update r k before).mono fun _ _ _ h => h.orderly
  · exact (ends_delete r k before).mono fun _ _ _ h => h.orderly
  · exact (ends_probe r k before).mono fun _ _ _ h => h.2.orderly
  · exact (ensures_adopt r k before text).mono fun _ _ _ h => h.orderly

/-- A role that is made in an empty cluster, where the next read fails. -/
def unread : Except Stop Unit × Session (Chronicle Rehearsal) :=
  Rehearsal.reconciler.account (.create .role)
    (.ofDesired (.map [("metadata", .block [("name", .str "reader")])]))
    (Rehearsal.initial.setFault .get (some 500))

/-- The creation ends with the read that fails, and with its error. -/
theorem operations_orderly_unread :
    Rehearsal.reconciler.store.Plain ∧
    Orderly .role createSchedule asFault unread.1 unread.2.world.exchanges ∧
    verbs unread.2.world.exchanges = [.create, .get] ∧
    unread.2.world.exchanges.head? =
      some ⟨.get .role ⟨some "default", "reader"⟩, .error (.transport "status 500")⟩ ∧
    unread.1 = .error (.fault (.transport "status 500")) := by
  obtain ⟨hcreate, -⟩ := operations_orderly Rehearsal.reconciler Rehearsal.plain_store .role
    (.ofDesired (.map [("metadata", .block [("name", .str "reader")])]))
  obtain ⟨made, hmade, horderly⟩ := hcreate ⟨Rehearsal.initial.setFault .get (some 500), []⟩
  have hexchanges : unread.2.world.exchanges = made := hmade.trans (List.append_nil made)
  refine ⟨Rehearsal.plain_store, ?_, rfl, rfl, rfl⟩
  rw [hexchanges]
  exact horderly

end Reconciler

end DesiredState
