import DesiredState.Proofs.Reconcile.Run
import DesiredState.Proofs.Resource
import DesiredState.Proofs.Store.Cluster

/-!
Updates converge.
An update by patch takes a live object to its desired state with at most one
change, and the read after it sees a state that needs no further patch. Another
update then changes nothing.
-/
namespace DesiredState

/-- How many of the recorded requests asked for a change. -/
def Recorded.changes {σ : Type} (w : Recorded σ) : Nat :=
  w.requests.countP (·.verb = .change)

/-- Reconciles with a cluster and records the requests. -/
def Cluster.reconciler (clock : Clock (Recorded Cluster)) (settings : Settings) (patience : Nat) :
    Reconciler (Recorded Cluster) :=
  ⟨Cluster.store.recorded, clock, settings, patience⟩

theorem Resource.records_refresh {r : Resource} {k : Kind} {id : ObjectId}
    (entries : List (String × Tree)) : (r.refresh entries).Records k id ↔ r.Records k id := by
  unfold Records
  rw [r.id?_refresh]

namespace Object

variable {k : Kind} {o d : Object k}

/-- A flattened object has metadata at least. -/
theorem entries_ne_nil (o : Object k) : o.entries ≠ [] := by
  intro hnil
  have hmetadata := o.get?_entries_metadata
  rw [hnil] at hmetadata
  cases hmetadata

theorem betweenTrees_flatten (hname : o.Named) (hcomplete : o.Complete) {t : Tree}
    (ht : expand k t = .ok d) :
    Patch.betweenTrees k o.flatten t =
      .ok (Patch.between o.configured.encode d.encode k.plan) := by
  have hflatten := expand_flatten_configured hname hcomplete
  simp only [Patch.betweenTrees, Patch.document, hflatten, ht]
  rfl

end Object

/-- Nothing is left to patch between what was seen of a recorded object and what it should be. -/
structure Session.Settled {σ : Type} (s : Session σ) (k : Kind) (id : ObjectId) : Prop where
  recorded : s.resource.Records k id
  seen : s.resource.seen ≠ []
  patch : Patch.betweenTrees k s.resource.observed s.resource.desired = .ok []

namespace Reconciler

open Operation
open Object (Reads)

theorem pendingChange_of_nil {k : Kind} (hmode : k.updateMode = .patch) (id : ObjectId)
    {resource : Resource}
    (h : Patch.betweenTrees k resource.observed resource.desired = .ok []) :
    pendingChange k id resource = .ok none := by
  simp [pendingChange, hmode, h]

theorem pendingChange_of_steps {k : Kind} (hmode : k.updateMode = .patch) (id : ObjectId)
    {resource : Resource} {patch : List Patch.Operation}
    (h : Patch.betweenTrees k resource.observed resource.desired = .ok patch) (hsome : patch ≠ [])
    {steps : List Patch.Step} (hsteps : Patch.toSteps patch = .ok steps) :
    pendingChange k id resource = .ok (some (.steps steps)) := by
  simp [pendingChange, hmode, h, hsome, hsteps]

variable (clock : Clock (Recorded Cluster)) (settings : Settings) (patience : Nat) {k : Kind}
  {s : Session (Recorded Cluster)} {id : ObjectId} {v : Json} {o d : Object k}

/-- A read that succeeds takes over the object that the cluster shows. -/
theorem perform_read_stored (hid : s.resource.Records k id)
    (hstored : s.world.state.objects (.ofId k id) = some v) {s' : Session (Recorded Cluster)} :
    ((Cluster.reconciler clock settings patience).read k).perform s = (.ok (), s') ↔
      ∃ seen, Object.decode? k (s.world.state.shown k v).1 = some seen ∧
        s' = ⟨s.resource.refresh seen.entries,
          ⟨(s.world.state.shown k v).2, .get k id :: s.world.requests⟩⟩ := by
  have hanswer : (Cluster.reconciler clock settings patience).store.answer (.get k id) s.world =
      (.ok (s.world.state.shown k v).1,
        ⟨(s.world.state.shown k v).2, .get k id :: s.world.requests⟩) := by
    simp only [Cluster.reconciler, Store.recorded, Cluster.answer_get hstored]
  rw [perform_read_eq_ok hid, hanswer]
  simp only [Except.bind, Object.decode]
  cases Object.decode? k (s.world.state.shown k v).1 <;> simp

/-- Reading a live object gives one that takes the same patches. -/
theorem perform_read_shown (hid : s.resource.Records k id)
    (hstored : s.world.state.objects (.ofId k id) = some v)
    (hshown : o.ReadsLike (s.world.state.shown k v).1) :
    ∃ (s' : Session (Recorded Cluster)) (o' : Object k),
      ((Cluster.reconciler clock settings patience).read k).perform s = (.ok (), s') ∧
      s'.world.requests = .get k id :: s.world.requests ∧
      s'.resource.desired = s.resource.desired ∧ s'.resource.Records k id ∧
      s'.resource.seen = o'.entries ∧ o'.Named ∧ o'.Complete ∧
      ∀ desired, Patch.between o'.configured.encode desired k.plan =
        Patch.between o.configured.encode desired k.plan := by
  obtain ⟨o', hreads', hsame⟩ := hshown
  refine ⟨_, o', (perform_read_stored clock settings patience hid hstored).2
    ⟨o', hreads'.decoded, rfl⟩, rfl, s.resource.desired_refresh _,
    (Resource.records_refresh _).2 hid, s.resource.seen_refresh (k.fields.sorted_flatten o'),
    hreads'.named, hreads'.complete, hsame⟩

/-- Reading a live object that needs no patch settles the session. -/
theorem settled_of_read (hid : s.resource.Records k id) (hcounted : s.world.state.Counted)
    (hstored : s.world.state.objects (.ofId k id) = some v) (hreads : Reads v o)
    (hdesired : Object.expand k s.resource.desired = .ok d)
    (hpatch : Patch.between o.configured.encode d.encode k.plan = []) :
    ∃ s', ((Cluster.reconciler clock settings patience).read k).perform s = (.ok (), s') ∧
      s'.world.requests = .get k id :: s.world.requests ∧
      s'.resource.desired = s.resource.desired ∧ s'.Settled k id := by
  obtain ⟨s', o', hread, hrequests, hsame, hid', hseen, hname, hcomplete, hpatches⟩ :=
    perform_read_shown clock settings patience hid hstored
      (Cluster.readsLike_shown hcounted hreads)
  have hobserved : s'.resource.observed = o'.flatten := congrArg Tree.map hseen
  refine ⟨s', hread, hrequests, hsame, hid', ?_, ?_⟩
  · rw [hseen]
    exact o'.entries_ne_nil
  · rw [hobserved, hsame, Object.betweenTrees_flatten hname hcomplete hdesired, hpatches, hpatch]

/-- A read sends no change. -/
theorem changes_of_read (hid : s.resource.Records k id) :
    (((Cluster.reconciler clock settings patience).read k).perform s).2.world.changes =
      s.world.changes := by
  rw [perform_read hid]
  split <;> rfl

/-- An update of a settled session sends no change. -/
theorem changes_of_settled (hmode : k.updateMode = .patch) (hs : s.Settled k id) :
    (((Cluster.reconciler clock settings patience).update k).perform s).2.world.changes =
      s.world.changes := by
  by_cases hreplaced : Patch.replacedFields k s.resource = .ok []
  · rw [perform_update hs.recorded hs.seen hreplaced (pendingChange_of_nil hmode id hs.patch)]
    exact changes_of_read clock settings patience hs.recorded
  · obtain ⟨stop, hstop⟩ := perform_update_of_replaced
      (r := Cluster.reconciler clock settings patience) hs.recorded hs.seen hreplaced
    rw [hstop]

/-- Sending a change that can be made puts a new version into the cluster. -/
theorem perform_send_change (hstored : s.world.state.objects (.ofId k id) = some v)
    {change : Change} {w : Json} (hchange : Cluster.applyChange v change = .ok w)
    {α : Type} (next : Operation (Recorded Cluster) α) :
    (do
      let _ ← send (Cluster.reconciler clock settings patience).store (.change k id change)
      next : Operation (Recorded Cluster) α).perform s =
      next.perform ⟨s.resource, ⟨s.world.state.put (.ofId k id) w,
        .change k id change :: s.world.requests⟩⟩ := by
  have hanswer : Cluster.store.recorded.answer (.change k id change) s.world =
      (.ok w, ⟨s.world.state.put (.ofId k id) w, .change k id change :: s.world.requests⟩) := by
    simp only [Store.recorded, Cluster.answer_change hstored hchange]
  rw [perform_bind, perform_send (Cluster.reconciler clock settings patience).store
    (.change k id change)]
  simp only [Cluster.reconciler, hanswer]
  rfl

theorem perform_change (hstored : s.world.state.objects (.ofId k id) = some v)
    {steps : List Patch.Step} {w : Json} (happly : Patch.applyAll steps v = some w)
    {α : Type} (next : Operation (Recorded Cluster) α) :
    (do
      let _ ← send (Cluster.reconciler clock settings patience).store (.change k id (.steps steps))
      next : Operation (Recorded Cluster) α).perform s =
      next.perform ⟨s.resource, ⟨s.world.state.put (.ofId k id) (Cluster.bumped w),
        .change k id (.steps steps) :: s.world.requests⟩⟩ :=
  perform_send_change clock settings patience hstored
    (by simp only [Cluster.applyChange, happly]) next

/-- An update by patch of a live object succeeds, sends at most one change and leaves nothing to
patch, so that another update sends none. -/
theorem update_converges
    (hmode : k.updateMode = .patch) (hid : s.resource.Records k id)
    (hcounted : s.world.state.Counted) (hstored : s.world.state.objects (.ofId k id) = some v)
    (hv : v.WellFormed) (hreads : Object.decode? k v = some o)
    (hcontained : o.encode.containedIn v = true) (hname : o.Named)
    (hdemands : ∀ path ∈ k.demands, Json.Holds path (k.fields.encode o))
    (hobserved : s.resource.observed = o.flatten) (ht : s.resource.desired.WellFormed)
    (hdesired : Object.expand k s.resource.desired = .ok d)
    (hreplaced : Patch.replacedFields k s.resource = .ok []) :
    ∃ s', ((Cluster.reconciler clock settings patience).update k).perform s = (.ok (), s') ∧
      s'.world.changes ≤ s.world.changes + 1 ∧
      s'.resource.desired = s.resource.desired ∧
      Patch.betweenTrees k s'.resource.observed s'.resource.desired = .ok [] ∧
      (((Cluster.reconciler clock settings patience).update k).perform s').2.world.changes =
        s'.world.changes := by
  have hcomplete : o.Complete := o.complete_iff.2 hdemands
  have hlive : Reads v o := ⟨hreads, hname, hcomplete⟩
  have hseen : s.resource.seen ≠ [] := by
    have hentries : s.resource.seen = o.entries := Tree.map.inj hobserved
    rw [hentries]
    exact o.entries_ne_nil
  have hbetween : Patch.betweenTrees k s.resource.observed s.resource.desired =
      .ok (Patch.between o.configured.encode d.encode k.plan) := by
    rw [hobserved]
    exact Object.betweenTrees_flatten hname hcomplete hdesired
  obtain ⟨-, hdcomplete, hdconfigured, -⟩ := Object.settled_of_expand ht hdesired
  by_cases hpatch : Patch.between o.configured.encode d.encode k.plan = []
  · -- Nothing is sent but the read.
    rw [hpatch] at hbetween
    obtain ⟨s', hread, hrequests, hsame, hsettled⟩ := settled_of_read clock settings patience hid
      hcounted hstored hlive hdesired hpatch
    refine ⟨s', ?_, ?_, hsame, hsettled.patch, changes_of_settled clock settings patience hmode
      hsettled⟩
    · rw [perform_update hid hseen hreplaced (pendingChange_of_nil hmode id hbetween)]
      exact hread
    · simp [Recorded.changes, hrequests, Request.verb]
  · obtain ⟨w, o₁, hleads, hreads₁, hempty⟩ := hlive.patched hv hcontained hdcomplete hdconfigured
    obtain ⟨steps, hsteps, happly⟩ := hleads.toSteps
    obtain ⟨o₂, hreads₂, hsame₂⟩ := Cluster.readsLike_bumped hreads₁
    obtain ⟨s', hread, hrequests, hsame, hsettled⟩ := settled_of_read clock settings patience
      (s := ⟨s.resource, ⟨s.world.state.put (.ofId k id) (Cluster.bumped w),
        .change k id (.steps steps) :: s.world.requests⟩⟩)
      hid hcounted (by simp [Cluster.objects_put]) hreads₂ hdesired ((hsame₂ _).trans hempty)
    refine ⟨s', ?_, ?_, hsame, hsettled.patch, changes_of_settled clock settings patience hmode
      hsettled⟩
    · rw [perform_update hid hseen hreplaced
        (pendingChange_of_steps hmode id hbetween hpatch hsteps)]
      exact (perform_change clock settings patience hstored happly _).trans hread
    · simp [Recorded.changes, hrequests, Request.verb]

/-- A role as a cluster has it, with a member that is not read. -/
def readerDocument : Json :=
  .obj [("apiVersion", .str "rbac.authorization.k8s.io/v1"), ("immutable", .bool true),
    ("kind", .str "Role"),
    ("metadata", .obj [("name", .str "reader"), ("namespace", .str "default")])]

def reader : Object .role :=
  ((some "reader", none, some "default", none, none, none, none, none, none, ()), none, ())

/-- The role was seen and is to have a label. -/
def readerSession : Session (Recorded Cluster) where
  resource :=
    { id? := some "default/reader"
      desired := .map [("metadata", .block [("labels", .map [("team", .str "a")]),
        ("name", .str "reader"), ("namespace", .str "default")])]
      seen := reader.entries
      sorted := Kind.role.fields.sorted_flatten reader }
  world := ⟨Cluster.empty.put ⟨.role, some "default", "reader"⟩ readerDocument, []⟩

def stillClock : Clock (Recorded Cluster) := ⟨fun _ => 0, fun _ w => w, fun _ => false⟩

theorem update_converges_reader :
    Object.decode? .role readerDocument = some reader ∧
    reader.encode.containedIn readerDocument = true ∧
    Patch.replacedFields .role readerSession.resource = .ok [] ∧
    ∃ s', ((Cluster.reconciler stillClock .initial 0).update .role).perform readerSession =
        (.ok (), s') ∧
      s'.world.changes ≤ 1 ∧
      Patch.betweenTrees .role s'.resource.observed readerSession.resource.desired = .ok [] := by
  have hid : readerSession.resource.Records .role ⟨some "default", "reader"⟩ :=
    ⟨"default/reader", rfl, rfl⟩
  have hcounted : readerSession.world.state.Counted := fun ready hready => by cases hready
  have hv : readerDocument.WellFormed := by decide +kernel
  have hcontained : reader.encode.containedIn readerDocument = true := by decide +kernel
  have hdemands : ∀ path ∈ Kind.role.demands, Json.Holds path (Kind.role.fields.encode reader) :=
    fun path hpath => by cases hpath
  have ht : readerSession.resource.desired.WellFormed := by decide +kernel
  obtain ⟨s', hupdate, hchanges, hsame, hpatch, -⟩ := update_converges stillClock .initial 0 rfl hid
    hcounted rfl hv rfl hcontained (Or.inl rfl) hdemands rfl ht rfl rfl
  exact ⟨rfl, hcontained, rfl, s', hupdate, hchanges, hsame ▸ hpatch⟩

end Reconciler

end DesiredState
