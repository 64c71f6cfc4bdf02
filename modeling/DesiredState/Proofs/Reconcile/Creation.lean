import DesiredState.Proofs.Patch.Replacement
import DesiredState.Proofs.Reconcile.Identity
import DesiredState.Proofs.Store.Admission

/-!
Creations lose nothing and settle.
What is seen of a new object is what was asked for, with what the cluster adds
to the metadata. No rule of a plan looks at that, so an update right after the
creation has nothing to send.
-/
namespace DesiredState

/-- Nothing happens to the cluster while one sleeps. -/
def Clock.SparesCluster (clock : Clock (Recorded Cluster)) : Prop :=
  ∀ d w, (clock.sleep d w).state = w.state

namespace Object

variable {k : Kind}

/-- What is configured of a stored object shows every rule what was asked for. -/
theorem pointer?_storedAs (o : Object k) (id : ObjectId) {r : Rule} (hr : r ∈ k.plan) :
    (o.storedAs id).configured.encode.pointer? r.pointer =
      o.configured.encode.pointer? r.pointer := by
  have hbody : (o.storedAs id).configured.2 = o.configured.2 := rfl
  have hmetadata : (o.storedAs id).configured.1.2.2.2 = o.configured.1.2.2.2 := by
    obtain ⟨ns?, name⟩ := id
    cases ns? <;> rfl
  exact pointer?_congr hbody hmetadata hr

end Object

namespace Cluster

variable {k : Kind}

/-- A later cluster has the same objects and reports what can be read, if the earlier one did. -/
def Stays (c c' : Cluster) : Prop :=
  c'.objects = c.objects ∧ (c.Counted → c'.Counted)

theorem Stays.of_asked {c c' : Cluster} {id : ObjectId} {request : Request}
    (hrequest : request = .get k id ∨ request = .warnings k id) (h : Stays c c') :
    Stays c (store.answer request c').2 := by
  rcases hrequest with rfl | rfl
  · simp only [store, answer]
    split
    · exact ⟨(c'.objects_shown k _).trans h.1, fun hc => counted_shown (h.2 hc) k _⟩
    · exact h
  · exact h

end Cluster

namespace Reconciler

open Operation

section

variable {σ : Type} {r : Reconciler σ} {k : Kind} {s s' : Session σ}

/-- A read that succeeds was by a recorded identity. -/
theorem exists_records_of_read (h : (r.read k).perform s = (.ok (), s')) :
    ∃ id, s.resource.Records k id := by
  obtain ⟨id, mid, hid, -⟩ := perform_bind_eq_ok.1 h
  unfold recordedId at hid
  obtain ⟨resource, _, hresource, hid⟩ := perform_bind_eq_ok.1 hid
  cases hresource
  cases htext : s.resource.id? with
  | none =>
    rw [htext] at hid
    cases (perform_require_eq_ok.1 hid).1
  | some text =>
    rw [htext] at hid
    exact ⟨id, text, htext, (perform_require_eq_ok.1 hid).1⟩

/-- A creation that succeeds expands what is desired, sends it, records the identity of what comes
back, waits for it and reads it. -/
theorem of_create_eq_ok (h : (r.create k).perform s = (.ok (), s')) :
    ∃ d v world o id mid, Object.expand k s.resource.desired = .ok d ∧
      r.store.answer (.create k (d.placed r.settings.defaultNamespace).ns?
        (d.placed r.settings.defaultNamespace).encode) s.world = (.ok v, world) ∧
      Object.decode k v = .ok o ∧ o.id = .ok id ∧
      (r.awaitReady id o).perform ⟨s.resource.setId (some id.text), world⟩ = (.ok (), mid) ∧
      (r.read k).perform mid = (.ok (), s') := by
  rw [create_eq] at h
  obtain ⟨_, _, hresource, hexpanding⟩ := perform_bind_eq_ok.1 h
  cases hresource
  obtain ⟨d, _, hd, hsending⟩ := perform_bind_eq_ok.1 hexpanding
  obtain ⟨hexpand, rfl⟩ := perform_require_eq_ok.1 hd
  obtain ⟨v, _, hv, htaking⟩ := perform_bind_eq_ok.1 hsending
  obtain ⟨world, hanswer, rfl⟩ := perform_send_eq_ok.1 hv
  obtain ⟨o, _, ho, hnaming⟩ := perform_bind_eq_ok.1 htaking
  obtain ⟨hdecode, rfl⟩ := perform_require_eq_ok.1 ho
  obtain ⟨id, _, hid, hkeeping⟩ := perform_bind_eq_ok.1 hnaming
  obtain ⟨hknown, rfl⟩ := perform_require_eq_ok.1 hid
  obtain ⟨_, _, hkeep, hwaiting⟩ := perform_bind_eq_ok.1 hkeeping
  cases hkeep
  obtain ⟨_, mid, hwait, hread⟩ := perform_bind_eq_ok.1 hwaiting
  exact ⟨d, v, world, o, id, mid, hexpand, hanswer, hdecode, hknown, hwait, hread⟩

end

variable {clock : Clock (Recorded Cluster)} {settings : Settings} {patience : Nat} {k : Kind}
  {s s' : Session (Recorded Cluster)}

/-- While a new object is waited for, nothing changes but the ready counts that were reported. -/
theorem stays_of_awaitReady (hclock : clock.SparesCluster) {id : ObjectId} {o : Object k}
    {result : Except Stop Unit}
    (h : ((Cluster.reconciler clock settings patience).awaitReady id o).perform s =
      (result, s')) :
    s'.resource = s.resource ∧ Cluster.Stays s.world.state s'.world.state := by
  have hends := ends_awaitReady (Cluster.reconciler clock settings patience) o id s.resource
  have hacts := (Cluster.reconciler clock settings patience).chronicled.actsThrough_awaitReady id o
  have hstays := hacts.keeps (Q := fun w => Cluster.Stays s.world.state w.state)
    (fun request w hrequest hw => hw.of_asked hrequest)
    (fun d w hw => (congrArg (Cluster.Stays s.world.state) (hclock d w)).mpr hw)
    (hends.mono fun _ _ _ h => h.2.asked) ⟨s.world, []⟩ ⟨rfl, fun hc => hc⟩
  obtain ⟨-, -, hresource, -⟩ := hends ⟨s.world, []⟩
  have hplain := (Cluster.reconciler clock settings patience).extends_chronicled.agrees
    (charted_awaitReady id o) ⟨s.resource, ⟨s.world, []⟩⟩
  have hsession : (⟨s.resource, ⟨s.world, []⟩⟩ : Session (Chronicle (Recorded Cluster))).on
      Chronicle.state = s := rfl
  rw [hsession, h] at hplain
  obtain ⟨-, rfl⟩ := Prod.ext_iff.1 hplain
  exact ⟨hresource, hstays⟩

/-- What a creation leaves of a session that succeeds: the stored object is recorded and seen. -/
structure Created {k : Kind} (s s' : Session (Recorded Cluster)) (d : Object k) (id : ObjectId) :
    Prop where
  recorded : s'.resource.Records k id
  desired : s'.resource.desired = s.resource.desired
  seen : s'.resource.seen = (d.storedAs id).entries
  stored : s'.world.state.objects (.ofId k id) = some (d.storedAs id).encode
  counted : s.world.state.Counted → s'.world.state.Counted

/-- A creation that succeeds puts the object that is stored into the cluster, waits and reads it. -/
theorem stored_of_create (hclock : clock.SparesCluster)
    (h : ((Cluster.reconciler clock settings patience).create k).perform s = (.ok (), s')) :
    ∃ (d : Object k) (id : ObjectId) (mid : Session (Recorded Cluster)),
      Object.expand k s.resource.desired = .ok d ∧ id = d.storedId settings.defaultNamespace ∧
      mid.resource = s.resource.setId (some id.text) ∧
      mid.world.state.objects (.ofId k id) = some (d.storedAs id).encode ∧
      (s.world.state.Counted → mid.world.state.Counted) ∧
      ((Cluster.reconciler clock settings patience).read k).perform mid = (.ok (), s') := by
  obtain ⟨d, v, world, o, id, mid, hexpand, hanswer, hdecode, hknown, hwait, hread⟩ :=
    of_create_eq_ok h
  have hcluster : Cluster.store.answer (.create k (d.placed settings.defaultNamespace).ns?
      (d.placed settings.defaultNamespace).encode) s.world.state = (.ok v, world.state) := by
    obtain ⟨hreply, hworld⟩ := Prod.ext_iff.1 hanswer
    exact Prod.ext hreply (congrArg Recorded.state hworld)
  obtain ⟨rfl, hput⟩ := Cluster.answer_create hcluster
  have hreads := d.id_storedAs settings.defaultNamespace
  refine ⟨d, _, mid, hexpand, rfl, ?_⟩
  generalize d.storedId settings.defaultNamespace = stored at hdecode hput hreads ⊢
  obtain rfl : d.storedAs stored = o := by
    rw [Object.decode, Object.decode?_encode] at hdecode
    exact Except.ok.inj hdecode
  obtain rfl : stored = id := Except.ok.inj (hreads.symm.trans hknown)
  obtain ⟨hresource, hobjects, hcounted⟩ := stays_of_awaitReady hclock hwait
  refine ⟨hresource, ?_, fun hc => hcounted (hput ▸ hc), hread⟩
  rw [hobjects, hput, Cluster.objects_put, if_pos rfl]

/-- A read that succeeds sees an object as it is stored, whatever the cluster shows of it. -/
theorem seen_of_read {o : Object k} {id : ObjectId} (hid : s.resource.Records k id)
    (hstored : s.world.state.objects (.ofId k id) = some o.encode)
    (h : ((Cluster.reconciler clock settings patience).read k).perform s = (.ok (), s')) :
    s'.resource = s.resource.refresh o.entries ∧ Cluster.Stays s.world.state s'.world.state := by
  obtain ⟨seen, hshown, rfl⟩ :=
    (perform_read_stored clock settings patience hid hstored).1 h
  exact ⟨congrArg s.resource.refresh (Cluster.entries_of_shown (Object.decode?_encode o) hshown),
    s.world.state.objects_shown k _, fun hc => Cluster.counted_shown hc k _⟩

theorem created_of_create (hclock : clock.SparesCluster)
    (h : ((Cluster.reconciler clock settings patience).create k).perform s = (.ok (), s')) :
    ∃ d : Object k, Object.expand k s.resource.desired = .ok d ∧
      Created s s' d (d.storedId settings.defaultNamespace) := by
  obtain ⟨d, id, mid, hexpand, hid, hresource, hstored, hcounted, hread⟩ :=
    stored_of_create hclock h
  have hrecorded : mid.resource.Records k id := by
    obtain ⟨other, hother⟩ := exists_records_of_read hread
    have hknown : (d.storedAs id).id = .ok id := hid ▸ d.id_storedAs settings.defaultNamespace
    rw [hresource] at hother ⊢
    exact Object.eq_of_records hknown hother ▸ hother
  obtain ⟨hrefresh, hobjects, hkept⟩ := seen_of_read hrecorded hstored hread
  refine ⟨d, hexpand, hid ▸ ⟨?_, ?_, ?_, ?_, hkept ∘ hcounted⟩⟩
  · rw [hrefresh]
    exact (Resource.records_refresh _).2 hrecorded
  · rw [hrefresh, Resource.desired_refresh, hresource]
    rfl
  · rw [hrefresh]
    exact mid.resource.seen_refresh (k.fields.sorted_flatten (d.storedAs id))
  · rw [hobjects, hstored]

/-- An update right after a creation reads the object and sends no change. -/
theorem update_of_created (hmode : k.updateMode = .patch) {d : Object k} {id : ObjectId}
    (h : Created s s' d id) (ht : s.resource.desired.WellFormed)
    (hdesired : Object.expand k s.resource.desired = .ok d) (hcounted : s.world.state.Counted) :
    ∃ s'', ((Cluster.reconciler clock settings patience).update k).perform s' = (.ok (), s'') ∧
      s''.world.requests = .get k id :: s'.world.requests := by
  obtain ⟨-, hcomplete, hconfigured, -⟩ := Object.settled_of_expand ht hdesired
  have hstored : Object.Reads (d.storedAs id).encode (d.storedAs id) :=
    ⟨Object.decode?_encode _, d.named_storedAs id, Object.complete_storedAs hcomplete id⟩
  have hobserved : s'.resource.observed = (d.storedAs id).flatten := congrArg Tree.map h.seen
  have hseen : s'.resource.seen ≠ [] := by
    rw [h.seen]
    exact Object.entries_ne_nil _
  have hprior : Object.expand k s'.resource.observed = .ok (d.storedAs id).configured := by
    rw [hobserved]
    exact Object.expand_flatten_configured hstored.named hstored.complete
  rw [← h.desired] at hdesired
  have hsame : ∀ r ∈ k.plan, (d.storedAs id).configured.encode.pointer? r.pointer =
      d.encode.pointer? r.pointer := by
    intro r hr
    rw [d.pointer?_storedAs id hr, hconfigured]
  have hreplaced := Patch.replacedFields_of_pointer?_eq hprior hdesired hsame
  have hbetween : Patch.betweenTrees k s'.resource.observed s'.resource.desired = .ok [] := by
    rw [hobserved, Object.betweenTrees_flatten hstored.named hstored.complete hdesired,
      Patch.between_of_pointer?_eq hcomplete hsame]
  obtain ⟨s'', -, hread, hrequests, -⟩ := perform_read_shown clock settings patience h.recorded
    h.stored (Cluster.readsLike_shown (h.counted hcounted) hstored)
  refine ⟨s'', ?_, hrequests⟩
  rw [perform_update h.recorded hseen hreplaced (pendingChange_of_nil hmode id hbetween)]
  exact hread

/-- What is seen after a creation that succeeds is what was asked for, with what the cluster adds to
the metadata, and the identity that is recorded is the one that it is stored for. An update by patch
right after it succeeds and sends no change. -/
theorem create_settles (hclock : clock.SparesCluster) (ht : s.resource.desired.WellFormed)
    (h : ((Cluster.reconciler clock settings patience).create k).perform s = (.ok (), s')) :
    ∃ (d : Object k) (given : List (String × Tree)) (id : ObjectId),
      Object.expand k s.resource.desired = .ok d ∧ s'.resource.desired = s.resource.desired ∧
      id = d.storedId settings.defaultNamespace ∧ s'.resource.Records k id ∧
      Entries.get? d.entries "metadata" = some (.block given) ∧
      s'.resource.observed = .map (Entries.insert "metadata" (.block (id.stamp given)) d.entries) ∧
      (k.updateMode = .patch → s.world.state.Counted →
        ∃ s'', ((Cluster.reconciler clock settings patience).update k).perform s' =
            (.ok (), s'') ∧
          s''.world.requests = .get k id :: s'.world.requests) := by
  obtain ⟨d, hdesired, hcreated⟩ := created_of_create hclock h
  refine ⟨d, Schema.metadata.flatten d.metadata, d.storedId settings.defaultNamespace, hdesired,
    hcreated.desired, rfl, hcreated.recorded, d.get?_entries_metadata, ?_, fun hmode hcounted => ?_⟩
  · rw [← d.entries_storedAs]
    exact congrArg Tree.map hcreated.seen
  · exact update_of_created hmode hcreated ht hdesired hcounted

/-- A role is asked for under a generated name. -/
def generatedSession : Session (Recorded Cluster) where
  resource := .ofDesired (.map [("metadata", .block [("generate_name", .str "reader-")])])
  world := ⟨Cluster.empty, []⟩

theorem create_settles_generated :
    stillClock.SparesCluster ∧ generatedSession.resource.desired.WellFormed ∧
    ∃ s', ((Cluster.reconciler stillClock .initial 0).create .role).perform generatedSession =
        (.ok (), s') ∧
      s'.resource.Records .role ⟨some "default", "reader-x7k2q"⟩ ∧
      s'.resource.observed = .map [("metadata", .block [("generate_name", .str "reader-"),
        ("name", .str "reader-x7k2q"), ("namespace", .str "default"),
        ("resource_version", .str "1"), ("uid", .str "uid-reader-x7k2q")])] ∧
      ∃ s'', ((Cluster.reconciler stillClock .initial 0).update .role).perform s' =
        (.ok (), s'') := by
  have hclock : stillClock.SparesCluster := fun _ _ => rfl
  have ht : generatedSession.resource.desired.WellFormed := by decide +kernel
  have hok : (((Cluster.reconciler stillClock .initial 0).create .role).perform
      generatedSession).1.isOk = true := by decide +kernel
  obtain ⟨d, given, id, hexpand, -, rfl, hid, hgiven, hobserved, hupdate⟩ :=
    create_settles hclock ht (perform_eq_of_isOk hok)
  cases hexpand
  cases hgiven
  obtain ⟨s'', hupdate, -⟩ := hupdate rfl fun ready hready => by cases hready
  exact ⟨hclock, ht, _, perform_eq_of_isOk hok, hid, hobserved, s'', hupdate⟩

end Reconciler

end DesiredState
