import DesiredState.Proofs.Reconcile.Target

/-!
Commands on different objects commute.
A command leaves all objects alone but the one that it is for, and comes to the
same whatever happens to the others. So two commands for different objects can
be carried out in either order.
-/
namespace DesiredState

variable {τ : Type}

/-- A clock that runs apart from the rest of a world. -/
def Clock.beside {σ : Type} (clock : Clock τ) : Clock (σ × τ) where
  now w := clock.now w.2
  sleep d w := (w.1, clock.sleep d w.2)
  cancelled w := clock.cancelled w.2

/-- A sleep takes its time whenever it begins, and nothing is cancelled by it. -/
structure Clock.Steady (clock : Clock τ) : Prop where
  pace : ∃ pace : Duration → Int, ∀ d t, clock.now (clock.sleep d t) = clock.now t + pace d
  cancelled : ∀ d t, clock.cancelled (clock.sleep d t) = clock.cancelled t

namespace Cluster

attribute [ext] Cluster

/-- The cluster that reports one ready count with every read, or, without one, that all replicas
are ready. -/
def steadyStore (ready? : Option Json) : Store (Cluster × τ) where
  answer request w :=
    let (reply, c) := Cluster.answer request { w.1 with ready := ready?.toList }
    (reply, { c with ready := w.1.ready }, w.2)

/-- Reconciles with a cluster that has a fixed setting for readiness and a clock beside it. -/
def steady (ready? : Option Json) (clock : Clock τ) (settings : Settings) (patience : Nat) :
    Reconciler (Cluster × τ) :=
  ⟨steadyStore ready?, clock.beside, settings, patience⟩

/-- The clusters have the same object for a key, if there is a key, and the same warnings. -/
def SameAt (key? : Option Key) (c c' : Cluster) : Prop :=
  (∀ key, key? = some key → c'.objects key = c.objects key) ∧ c'.warnings = c.warnings

theorem shown_congr {c c' : Cluster} (h : c'.ready = c.ready) (k : Kind) (v : Json) :
    (c'.shown k v).1 = (c.shown k v).1 := by
  unfold shown
  rw [h]
  split
  · split <;> rfl
  · rfl

theorem warnings_shown (c : Cluster) (k : Kind) (v : Json) :
    (c.shown k v).2.warnings = c.warnings := by
  unfold shown
  split
  · split <;> rfl
  · rfl

theorem warnings_answer (request : Request) (c : Cluster) :
    (answer request c).2.warnings = c.warnings := by
  cases request with
  | create k ns? object => simp only [answer]; split <;> rfl
  | get k id =>
    simp only [answer]
    split
    · exact c.warnings_shown k _
    · rfl
  | change k id change =>
    simp only [answer]
    split
    · split <;> rfl
    · rfl
  | delete k id => simp only [answer]; split <;> rfl
  | warnings k id => rfl

/-- A request is about no other object. -/
theorem objects_answer {key : Key} {request : Request} (h : request.key ≠ key) (c : Cluster) :
    (answer request c).2.objects key = c.objects key := by
  cases request with
  | create k ns? object =>
    simp only [answer]
    split
    · rfl
    · exact (c.objects_put _ key _).trans (if_neg (Ne.symm h))
  | get k id =>
    simp only [answer]
    split
    · rw [objects_shown]
    · rfl
  | change k id change =>
    simp only [answer]
    split
    · split
      · exact (c.objects_put _ key _).trans (if_neg (Ne.symm h))
      · rfl
    · rfl
  | delete k id =>
    simp only [answer]
    split
    · exact (c.objects_remove _ key).trans (if_neg (Ne.symm h))
    · rfl
  | warnings k id => rfl

/-- The reply to a request and what is stored then follow from the object that it is about. -/
theorem answer_congr {request : Request} {c c' : Cluster} (hready : c'.ready = c.ready)
    (hwarnings : c'.warnings = c.warnings) (h : c'.objects request.key = c.objects request.key) :
    (answer request c').1 = (answer request c).1 ∧
      (answer request c').2.objects request.key = (answer request c).2.objects request.key := by
  cases request with
  | create k ns? object =>
    simp only [Request.key] at h ⊢
    simp only [answer, h]
    split
    · exact ⟨rfl, h⟩
    · exact ⟨rfl, by rw [objects_put, objects_put, if_pos rfl, if_pos rfl]⟩
  | get k id =>
    simp only [Request.key] at h ⊢
    simp only [answer, h]
    split
    · exact ⟨congrArg Except.ok (shown_congr hready k _), by rw [objects_shown, objects_shown, h]⟩
    · exact ⟨rfl, h⟩
  | change k id change =>
    simp only [Request.key] at h ⊢
    simp only [answer, h]
    split
    · split
      · exact ⟨rfl, by rw [objects_put, objects_put, if_pos rfl, if_pos rfl]⟩
      · exact ⟨rfl, h⟩
    · exact ⟨rfl, h⟩
  | delete k id =>
    simp only [Request.key] at h ⊢
    simp only [answer, h]
    split
    · exact ⟨rfl, by rw [objects_remove, objects_remove, if_pos rfl, if_pos rfl]⟩
    · exact ⟨rfl, h⟩
  | warnings k id => exact ⟨congrArg Except.ok hwarnings, h⟩

section Steady

variable (ready? : Option Json) {request : Request} {w v : Cluster × τ}

theorem warnings_answer_steadyStore (request : Request) (w : Cluster × τ) :
    ((steadyStore ready?).answer request w).2.1.warnings = w.1.warnings :=
  warnings_answer request { w.1 with ready := ready?.toList }

theorem objects_answer_steadyStore {key : Key} (h : request.key ≠ key) (w : Cluster × τ) :
    ((steadyStore ready?).answer request w).2.1.objects key = w.1.objects key :=
  objects_answer h { w.1 with ready := ready?.toList }

theorem SameAt.answer {key? : Option Key} (hkey : key? = some request.key)
    (h : SameAt key? w.1 v.1) :
    ((steadyStore ready?).answer request v).1 = ((steadyStore ready?).answer request w).1 ∧
      SameAt key? ((steadyStore ready?).answer request w).2.1
        ((steadyStore ready?).answer request v).2.1 := by
  let c : Cluster := { w.1 with ready := ready?.toList }
  let c' : Cluster := { v.1 with ready := ready?.toList }
  have hready : c'.ready = c.ready := rfl
  obtain ⟨hreply, hobject⟩ := answer_congr hready h.2 (h.1 _ hkey)
  refine ⟨hreply, fun key hother => ?_, ?_⟩
  · obtain rfl := Option.some.inj (hkey.symm.trans hother)
    exact hobject
  · exact (warnings_answer_steadyStore ready? request v).trans
      (h.2.trans (warnings_answer_steadyStore ready? request w).symm)

theorem stores_steadyStore (ns : String) (request : Request) (w : Cluster × τ) :
    Exchange.Stores ns ⟨request, ((steadyStore ready?).answer request w).1⟩ := by
  intro k d v h
  obtain ⟨rfl, hreply⟩ := Exchange.mk.inj h
  exact (answer_create (Prod.ext (eq_of_heq hreply) rfl)).1

end Steady

end Cluster

namespace Reconciler

open Cluster

variable (ready? : Option Json) {clock : Clock τ} (settings : Settings) (patience : Nat)

/-- A command leaves all objects alone but the one that it is for. -/
theorem objects_report (clock : Clock τ) (c : Command) {before : Resource} {key : Key}
    (h : c.target? settings.defaultNamespace before ≠ some key) (w : Cluster × τ) :
    (((steady ready? clock settings patience).report c).perform
      ⟨before, w⟩).2.world.1.objects key = w.1.objects key := by
  let r := steady ready? clock settings patience
  have hmade := (r.ensures_target (stores_steadyStore ready? _) c before).mono
    fun _ made _ hmade x hx => show x.request.key ≠ key from fun heq =>
      h ((hmade x hx).trans (congrArg some heq))
  have hkept := (r.chronicled.actsThrough_of_charted (charted_report c)).keeps
    (C := fun x => x.request.key ≠ key) (Q := fun v => v.1.objects key = w.1.objects key)
    (fun request v hother hv => (objects_answer_steadyStore ready? hother v).trans hv)
    (fun _ _ hv => hv) hmade ⟨w, []⟩ rfl
  have hagrees := r.extends_chronicled.agrees (charted_report c) ⟨before, ⟨w, []⟩⟩
  exact (congrArg (fun run => run.2.world.1.objects key) hagrees).trans hkept

/-- Beside objects, a command leaves a cluster as it is, and is not cancelled meanwhile. -/
theorem rest_report (hclock : clock.Steady) (c : Command) (before : Resource) (w : Cluster × τ) :
    let after := (((steady ready? clock settings patience).report c).perform ⟨before, w⟩).2.world
    after.1.ready = w.1.ready ∧ after.1.warnings = w.1.warnings ∧
      clock.cancelled after.2 = clock.cancelled w.2 := by
  refine (steady ready? clock settings patience).actsThrough_of_charted (charted_report c)
    (fun v => v.1.ready = w.1.ready ∧ v.1.warnings = w.1.warnings ∧
      clock.cancelled v.2 = clock.cancelled w.2) ?_ ?_ ⟨before, w⟩ ⟨rfl, rfl, rfl⟩
  · rintro request v ⟨hready, hwarnings, hcancelled⟩
    exact ⟨hready, (warnings_answer_steadyStore ready? request v).trans hwarnings, hcancelled⟩
  · rintro d v ⟨hready, hwarnings, hcancelled⟩
    exact ⟨hready, hwarnings, (hclock.cancelled d v.2).trans hcancelled⟩

/-- What a command comes to only depends on the object that it is for, and not on the time. -/
theorem report_congr (hclock : clock.Steady) (c : Command) {before : Resource}
    {w v : Cluster × τ}
    (hsame : SameAt (c.target? settings.defaultNamespace before) w.1 v.1)
    (hcancelled : clock.cancelled v.2 = clock.cancelled w.2) :
    let m := (steady ready? clock settings patience).report c
    (m.perform ⟨before, v⟩).1 = (m.perform ⟨before, w⟩).1 ∧
      (m.perform ⟨before, v⟩).2.resource = (m.perform ⟨before, w⟩).2.resource ∧
      SameAt (c.target? settings.defaultNamespace before)
        (m.perform ⟨before, w⟩).2.world.1 (m.perform ⟨before, v⟩).2.world.1 := by
  let r := steady ready? clock settings patience
  let key? := c.target? settings.defaultNamespace before
  -- From the second world on, the clock is set to what it shows in the first one.
  let k := clock.now w.2 - clock.now v.2
  let q := { r with clock := r.clock.ahead k }
  obtain ⟨pace, hpace⟩ := hclock.pace
  have halike : r.Alike q (fun request => key? = some request.key) fun w v =>
      SameAt key? w.1 v.1 ∧ clock.now v.2 + k = clock.now w.2 ∧
        clock.cancelled v.2 = clock.cancelled w.2 := by
    refine ⟨?_, fun w v h => h.2.1, ?_, fun w v h => h.2.2, rfl, rfl⟩
    · rintro request w v hkey ⟨hsame, htime, hcancelled⟩
      obtain ⟨hreply, hafter⟩ := hsame.answer ready? hkey
      exact ⟨hreply, hafter, htime, hcancelled⟩
    · rintro d w v ⟨hsame, htime, hcancelled⟩
      refine ⟨hsame, ?_, ?_⟩
      · show clock.now (clock.sleep d v.2) + k = clock.now (clock.sleep d w.2)
        rw [hpace, hpace, ← htime, Int.add_right_comm]
      · exact (hclock.cancelled d v.2).trans (hcancelled.trans (hclock.cancelled d w.2).symm)
  have hstart : clock.now v.2 + k = clock.now w.2 := by omega
  obtain ⟨hresult, hresource, hafter, -⟩ := halike.perform (charted_report c)
    (r.ensures_target (stores_steadyStore ready? _) c before) (w := w) (v := v)
    ⟨hsame, hstart, hcancelled⟩
  rw [show q.report c = r.report c from r.report_ahead k c] at hresult hresource hafter
  exact ⟨hresult, hresource, hafter⟩

section Apart

variable {a b : Command} {first second : Resource}

/-- A command comes to the same after one on a different object. -/
theorem report_after (hclock : clock.Steady)
    (hapart : ∀ key, a.target? settings.defaultNamespace first = some key →
      b.target? settings.defaultNamespace second ≠ some key) (w : Cluster × τ) :
    let r := steady ready? clock settings patience
    let one := (r.report a).perform ⟨first, w⟩
    let later := (r.report a).perform ⟨first, ((r.report b).perform ⟨second, w⟩).2.world⟩
    later.1 = one.1 ∧ later.2.resource = one.2.resource ∧
      SameAt (a.target? settings.defaultNamespace first) one.2.world.1 later.2.world.1 := by
  obtain ⟨-, hwarnings, hcancelled⟩ := rest_report ready? settings patience hclock b second w
  have hobjects := fun key ha => objects_report ready? settings patience clock b (hapart key ha) w
  exact report_congr ready? settings patience hclock a ⟨hobjects, hwarnings⟩ hcancelled

/-- Two commands on different objects come to the same in either order, and so do their resources
and the cluster. A command never changes an object that it is not for. -/
theorem reports_commute (hclock : clock.Steady)
    (hapart : ∀ key, a.target? settings.defaultNamespace first = some key →
      b.target? settings.defaultNamespace second ≠ some key) (w : Cluster × τ) :
    let r := steady ready? clock settings patience
    let one := (r.report a).perform ⟨first, w⟩
    let two := (r.report b).perform ⟨second, one.2.world⟩
    let two' := (r.report b).perform ⟨second, w⟩
    let one' := (r.report a).perform ⟨first, two'.2.world⟩
    one'.1 = one.1 ∧ two'.1 = two.1 ∧
      one'.2.resource = one.2.resource ∧ two'.2.resource = two.2.resource ∧
      one'.2.world.1 = two.2.world.1 ∧
      ∀ (c : Command) (before : Resource) (v : Cluster × τ) (key : Key),
        c.target? settings.defaultNamespace before ≠ some key →
          ((r.report c).perform ⟨before, v⟩).2.world.1.objects key = v.1.objects key := by
  intro r one two two' one'
  have hother : ∀ (c : Command) (before : Resource) (v : Cluster × τ) (key : Key),
      c.target? settings.defaultNamespace before ≠ some key →
        ((r.report c).perform ⟨before, v⟩).2.world.1.objects key = v.1.objects key :=
    fun c _ v _ hkey => objects_report ready? settings patience clock c hkey v
  have hrest := rest_report ready? settings patience hclock
  have hapart' := fun key hb ha => hapart key ha hb
  obtain ⟨hresult₁, hresource₁, hobject₁, -⟩ :=
    report_after ready? settings patience hclock hapart w
  obtain ⟨hresult₂, hresource₂, hobject₂, -⟩ :=
    report_after ready? settings patience hclock hapart' w
  refine ⟨hresult₁, hresult₂.symm, hresource₁, hresource₂.symm, Cluster.ext (funext fun key => ?_)
    ?_ ?_, hother⟩
  · -- Each object was made by the command that it is for, or was there before.
    by_cases ha : a.target? settings.defaultNamespace first = some key
    · exact (hobject₁ key ha).trans (hother b second one.2.world key (hapart key ha)).symm
    · have hone : one'.2.world.1.objects key = two'.2.world.1.objects key :=
        hother a first two'.2.world key ha
      by_cases hb : b.target? settings.defaultNamespace second = some key
      · exact hone.trans (hobject₂ key hb).symm
      · calc one'.2.world.1.objects key = two'.2.world.1.objects key := hone
          _ = w.1.objects key := hother b second w key hb
          _ = one.2.world.1.objects key := (hother a first w key ha).symm
          _ = two.2.world.1.objects key := (hother b second one.2.world key hb).symm
  · calc one'.2.world.1.ready = two'.2.world.1.ready := (hrest a first two'.2.world).1
      _ = w.1.ready := (hrest b second w).1
      _ = one.2.world.1.ready := (hrest a first w).1.symm
      _ = two.2.world.1.ready := (hrest b second one.2.world).1.symm
  · calc one'.2.world.1.warnings = two'.2.world.1.warnings := (hrest a first two'.2.world).2.1
      _ = w.1.warnings := (hrest b second w).2.1
      _ = one.2.world.1.warnings := (hrest a first w).2.1.symm
      _ = two.2.world.1.warnings := (hrest b second one.2.world).2.1.symm

end Apart

/-- Time only passes by sleeping. -/
def sleeperClock : Clock Int := ⟨id, fun d t => t + d.nanoseconds, fun _ => false⟩

/-- A role that also names a namespace, whether or not its kind has them. -/
def wardenResource : Resource :=
  .ofDesired (.map [("metadata", .block [("name", .str "warden"), ("namespace", .str "apps")])])

theorem reports_commute_wardens :
    sleeperClock.Steady ∧
    (Command.create .clusterRole).target? "default" wardenResource =
      some ⟨.clusterRole, none, "warden"⟩ ∧
    (Command.create .role).target? "default" wardenResource =
      some ⟨.role, some "apps", "warden"⟩ ∧
    let r := steady none sleeperClock .initial 0
    let one := (r.report (.create .clusterRole)).perform ⟨wardenResource, Cluster.empty, 0⟩
    let two := (r.report (.create .role)).perform ⟨wardenResource, one.2.world⟩
    let two' := (r.report (.create .role)).perform ⟨wardenResource, Cluster.empty, 0⟩
    let one' := (r.report (.create .clusterRole)).perform ⟨wardenResource, two'.2.world⟩
    one.1 = .ok none ∧ two.1 = .ok none ∧ one'.2.world.1 = two.2.world.1 ∧
      one'.2.resource = one.2.resource ∧ two'.2.resource = two.2.resource := by
  have hclock : sleeperClock.Steady := ⟨⟨fun d => d.nanoseconds, fun _ _ => rfl⟩, fun _ _ => rfl⟩
  have hone : (Command.create .clusterRole).target? "default" wardenResource =
      some ⟨.clusterRole, none, "warden"⟩ := by rfl
  have htwo : (Command.create .role).target? "default" wardenResource =
      some ⟨.role, some "apps", "warden"⟩ := by rfl
  have hapart : ∀ key, (Command.create .clusterRole).target? "default" wardenResource = some key →
      (Command.create .role).target? "default" wardenResource ≠ some key := by
    intro key ha hb
    cases hone.symm.trans ha
    cases htwo.symm.trans hb
  obtain ⟨-, -, hfirst, hsecond, hcluster, -⟩ :=
    reports_commute none .initial 0 hclock hapart (Cluster.empty, 0)
  exact ⟨hclock, hone, htwo, by rfl, by rfl, hcluster, hfirst, hsecond⟩

end Reconciler

end DesiredState
