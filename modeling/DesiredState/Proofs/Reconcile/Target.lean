import DesiredState.Proofs.Reconcile.Alike
import DesiredState.Proofs.Reconcile.Ending
import DesiredState.Proofs.Reconcile.Update
import DesiredState.Proofs.Store.Admission

/-!
What a command is about.
All that a command asks of a store is about one object: the one whose identity
is recorded or given, or the one that it makes, under the name and the namespace
that a cluster stores it for.
-/
namespace DesiredState

open Operation

variable {σ : Type}

/-- Carries out a command and tells, for a probe, whether the object is there. -/
def Reconciler.report (r : Reconciler σ) : Command → Operation σ (Option Bool)
  | .probe k => do return some (← r.probe k)
  | c => do
    r.act c
    return none

namespace Reconciler

/-- It does not matter when a command is carried out. -/
theorem report_ahead (r : Reconciler σ) (k : Int) (c : Command) :
    ({ r with clock := r.clock.ahead k } : Reconciler σ).report c = r.report c := by
  cases c with
  | probe kind => rfl
  | _ => simp only [report, act_ahead]

theorem charted_report {settings : Settings} {patience : Nat} (c : Command) :
    Charted settings patience fun _ r => r.report c := by
  have hact : Charted settings patience fun _ r => (do
      r.act c
      return none : Operation _ (Option Bool)) :=
    (charted_act c).bind fun _ => charted_pure none
  cases c with
  | probe k => exact (charted_probe k).bind fun found => charted_pure (some found)
  | _ => exact hact

end Reconciler

/-- Where the object of a request is kept. -/
def Request.key : Request → Cluster.Key
  | create k ns? object => ⟨k, ns?, Cluster.nameOf object⟩
  | get k id | change k id _ | delete k id | warnings k id => .ofId k id

/-- The identity that is recorded, if it can be read. -/
def Resource.recorded? (r : Resource) (k : Kind) : Option ObjectId :=
  r.id?.bind fun text => (ObjectId.decode k.scope text).toOption

/-- Where the object of a command is kept; there is none if the command fails before it asks for
anything. -/
def Command.target? (ns : String) : Command → Resource → Option Cluster.Key
  | .setDesired _, _ | .commit, _ => none
  | .create k, r => (Object.expand k r.desired).toOption.map fun d => .ofId k (d.storedId ns)
  | .read k, r | .update k, r | .delete k, r | .probe k, r => (r.recorded? k).map (.ofId k)
  | .adopt k text, _ => (ObjectId.decode k.scope text).toOption.map (.ofId k)

theorem Resource.recorded?_eq_some {r : Resource} {k : Kind} {id : ObjectId} :
    r.recorded? k = some id ↔ r.Records k id := by
  unfold recorded? Records
  cases r.id? with
  | none => simp
  | some text =>
    cases hdecode : ObjectId.decode k.scope text <;> simp [hdecode, Except.toOption]

section Recorded

variable {k : Kind} {before after : Resource} {result : Except Stop Unit} {made : List Exchange}

/-- All requests are about the object that is recorded. -/
def OnRecorded (k : Kind) (before : Resource) (made : List Exchange) : Prop :=
  ∀ x ∈ made, ∃ id, before.Records k id ∧ x.request.key = .ofId k id

theorem onRecorded_nil : OnRecorded k before [] := fun _ hx => absurd hx List.not_mem_nil

theorem onRecorded_singleton {x : Exchange} {id : ObjectId} (hid : before.Records k id)
    (hkey : x.request.key = .ofId k id) : OnRecorded k before [x] :=
  List.forall_mem_singleton.2 ⟨id, hid, hkey⟩

theorem ReadEnd.onRecorded (h : ReadEnd k before result made after) : OnRecorded k before made := by
  cases h with
  | unrecorded => exact onRecorded_nil
  | failed hid => exact onRecorded_singleton hid rfl
  | unreadable hid => exact onRecorded_singleton hid rfl
  | taken hid => exact onRecorded_singleton hid rfl

theorem AmendEnd.onRecorded {id : ObjectId} (h : AmendEnd k id before result made after)
    (hid : before.Records k id) : OnRecorded k before made := by
  cases h with
  | refused => exact onRecorded_nil
  | unchanged _ hread => exact hread.onRecorded
  | failed => exact onRecorded_singleton hid rfl
  | changed _ hread =>
    exact List.forall_mem_append.2 ⟨hread.onRecorded, onRecorded_singleton hid rfl⟩

theorem UpdateEnd.onRecorded (h : UpdateEnd k before result made after) :
    OnRecorded k before made := by
  cases h with
  | unrecorded => exact onRecorded_nil
  | unseen _ hread => exact hread.onRecorded
  | looked hid _ hread hamend =>
    refine List.forall_mem_append.2 ⟨fun x hx => ?_, hread.onRecorded⟩
    cases hread with
    | taken =>
      -- The first read leaves the identity as it is.
      obtain ⟨other, hother, hkey⟩ := hamend.onRecorded ((before.records_refresh _).2 hid) x hx
      exact ⟨other, (before.records_refresh _).1 hother, hkey⟩
  | known hid _ hamend => exact hamend.onRecorded hid

theorem DeleteEnd.onRecorded (h : DeleteEnd k before result made after) :
    OnRecorded k before made := by
  cases h with
  | unrecorded => exact onRecorded_nil
  | failed hid => exact onRecorded_singleton hid rfl
  | deleted hid => exact onRecorded_singleton hid rfl

theorem ProbeEnd.onRecorded {found : Except Stop Bool} (h : ProbeEnd k before found made) :
    OnRecorded k before made := by
  cases h with
  | unrecorded => exact onRecorded_nil
  | found hid => exact onRecorded_singleton hid rfl
  | absent hid => exact onRecorded_singleton hid rfl
  | failed hid => exact onRecorded_singleton hid rfl

theorem OnRecorded.target? (h : OnRecorded k before made) :
    ∀ x ∈ made, (before.recorded? k).map (Cluster.Key.ofId k) = some x.request.key := by
  intro x hx
  obtain ⟨id, hid, hkey⟩ := h x hx
  rw [Resource.recorded?_eq_some.2 hid, hkey]
  rfl

theorem Asked.key {id : ObjectId} (h : Asked k id made) {x : Exchange} (hx : x ∈ made) :
    x.request.key = .ofId k id := by
  rcases h x hx with hrequest | hrequest <;> rw [hrequest] <;> rfl

/-- Taking over an object only asks for the object itself. -/
theorem TakeOverEnd.asked_of_id {settings : Settings} {o : Object k} {id : ObjectId}
    (h : TakeOverEnd settings k before o.encode result made after) (hid : o.id = .ok id) :
    Asked k id made := by
  have hsame : ∀ o', Object.decode k o.encode = .ok o' → ∀ id', o'.id = .ok id' → id' = id := by
    intro o' hdecode id' hid'
    rw [Object.decode, Object.decode?_encode] at hdecode
    obtain rfl := Except.ok.inj hdecode
    exact Except.ok.inj (hid'.symm.trans hid)
  cases h with
  | unreadable => exact asked_nil
  | unidentified => exact asked_nil
  | unready hdecode hid' hwait => exact hsame _ hdecode _ hid' ▸ hwait.asked
  | awaited hdecode hid' hwait hread =>
    exact hsame _ hdecode _ hid' ▸
      (hread.asked fun _ => Object.eq_of_records hid').append hwait.asked

/-- The replies to creations are what a cluster stores. -/
def Exchange.Stores (ns : String) (x : Exchange) : Prop :=
  ∀ (k : Kind) (d : Object k) (v : Json),
    x = ⟨.create k (d.placed ns).ns? (d.placed ns).encode, .ok v⟩ →
      v = (d.storedAs (d.storedId ns)).encode

theorem CreateEnd.key {r : Reconciler σ} {d : Object k}
    (hexpand : Object.expand k before.desired = .ok d) (h : CreateEnd r k before result made after)
    (hstores : ∀ x ∈ made, x.Stores r.settings.defaultNamespace) :
    ∀ x ∈ made, x.request.key = .ofId k (d.storedId r.settings.defaultNamespace) := by
  have hcreation : (r.creation d).key = .ofId k (d.storedId r.settings.defaultNamespace) := by
    rw [d.storedId_eq]
    simp only [Reconciler.creation, Request.key, Cluster.nameOf_encode]
    rfl
  cases h with
  | malformed => exact fun _ hx => absurd hx List.not_mem_nil
  | failed hexpand' =>
    cases hexpand.symm.trans hexpand'
    exact List.forall_mem_singleton.2 hcreation
  | @made d' v _ later _ hexpand' htaken =>
    cases hexpand.symm.trans hexpand'
    refine List.forall_mem_append.2 ⟨?_, List.forall_mem_singleton.2 hcreation⟩
    obtain rfl := hstores ⟨r.creation d, .ok v⟩ (by simp) k d v rfl
    exact fun x hx => (htaken.asked_of_id (d.id_storedAs _)).key hx

end Recorded

namespace Reconciler

theorem ensures_adopt_key (r : Reconciler σ) (k : Kind) (before : Resource) (text : String) :
    (r.chronicled.adopt k text).Ensures before fun _ made _ => ∀ x ∈ made,
      (ObjectId.decode k.scope text).toOption.map (Cluster.Key.ofId k) = some x.request.key := by
  refine ensures_require_bind (fun id hid => ?_) fun e _ x hx => absurd hx List.not_mem_nil
  have hread : ∀ {result : Except Stop Unit} {made : List Exchange} {after : Resource},
      ReadEnd k (before.setId (some id.text)) result made after → ∀ x ∈ made,
        (ObjectId.decode k.scope text).toOption.map (Cluster.Key.ofId k) =
          some x.request.key := by
    intro result made after hend x hx
    obtain ⟨other, ⟨_, hother, hdecode⟩, hkey⟩ := hend.onRecorded x hx
    cases hother
    rw [ObjectId.text_of_decode hid, hid] at hdecode
    cases hdecode
    rw [hid, hkey]
    rfl
  refine ensures_keep_bind ?_
  refine ensures_tryCatch (ensures_read r k _) (fun _ _ _ hend => hread hend) ?_
  intro stop made mid hend
  exact ensures_keep_bind fun _ => ⟨[], rfl, hread hend⟩

/-- All requests of a command are about the object that it is for. -/
theorem ensures_target (r : Reconciler σ)
    (hstores : ∀ request state, Exchange.Stores r.settings.defaultNamespace
      ⟨request, (r.store.answer request state).1⟩) (c : Command) (before : Resource) :
    (r.chronicled.report c).Ensures before fun _ made _ => ∀ x ∈ made,
      c.target? r.settings.defaultNamespace before = some x.request.key := by
  have htold : ∀ {m : Operation (Chronicle σ) Unit} {key? : Option Cluster.Key},
      (m.Ensures before fun _ made _ => ∀ x ∈ made, key? = some x.request.key) →
      (do m; return (none : Option Bool)).Ensures before fun _ made _ =>
        ∀ x ∈ made, key? = some x.request.key :=
    fun hm => hm.bind (fun _ _ _ hmade => ensures_pure hmade) fun _ _ _ hmade => hmade
  cases c with
  | setDesired desired =>
    refine htold (m := keep (·.setDesired desired)) (ensures_keep ?_)
    exact fun _ hx => absurd hx List.not_mem_nil
  | commit =>
    refine htold (m := keep Resource.commit) (ensures_keep ?_)
    exact fun _ hx => absurd hx List.not_mem_nil
  | create k =>
    have hends := (r.chronicled.actsThrough_create k).ensures_answered hstores
      (ends_create r k before)
    refine htold (hends.mono fun _ _ _ ⟨hend, hreplies⟩ => ?_)
    cases hexpand : Object.expand k before.desired with
    | error e =>
      intro x hx
      cases hend with
      | malformed => cases hx
      | failed hexpand' => cases hexpand.symm.trans hexpand'
      | made hexpand' => cases hexpand.symm.trans hexpand'
    | ok d =>
      intro x hx
      simp only [Command.target?, hexpand]
      rw [hend.key hexpand hreplies x hx]
      rfl
  | read k => exact htold ((ensures_read r k before).mono fun _ _ _ hend => hend.onRecorded.target?)
  | update k =>
    exact htold ((ends_update r k before).mono fun _ _ _ hend => hend.onRecorded.target?)
  | delete k =>
    exact htold ((ends_delete r k before).mono fun _ _ _ hend => hend.onRecorded.target?)
  | probe k =>
    exact (ends_probe r k before).bind (fun _ _ _ hend => ensures_pure hend.2.onRecorded.target?)
      fun _ _ _ hend => hend.2.onRecorded.target?
  | adopt k text => exact htold (ensures_adopt_key r k before text)

end Reconciler

end DesiredState
