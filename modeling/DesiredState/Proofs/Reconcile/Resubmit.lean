import DesiredState.Proofs.Kind.Merged
import DesiredState.Proofs.Reconcile.Update

/-!
Updates by merging the whole object.
Such an update brings everything desired into the live object and removes
nothing from it. The read after it sees a state in which the dropped labels and
annotations are still to be removed, and nothing is left to patch if the desired
object retains all that may change in place.
-/
namespace DesiredState.Reconciler

open Operation
open Object (Reads)
open Schema

theorem pendingChange_of_resubmit {k : Kind} (hmode : k.updateMode = .resubmit) (id : ObjectId)
    {resource : Resource} {d : Object k} (h : Object.expand k resource.desired = .ok d) :
    pendingChange k id resource = .ok (some (.merge (d.movedTo id.ns?).encode)) := by
  cases hns : id.ns? with
  | none => simp [pendingChange, hmode, h, hns, Object.movedTo]
  | some ns => simp [pendingChange, hmode, h, hns, Object.movedTo]

theorem isScaled_of_resubmit {k : Kind} (hmode : k.updateMode = .resubmit) :
    Cluster.isScaled k = false := by
  cases k <;> first | rfl | cases hmode

variable (clock : Clock (Recorded Cluster)) (settings : Settings) (patience : Nat) {k : Kind}
  {s : Session (Recorded Cluster)} {id : ObjectId} {v : Json} {o d : Object k}

/-- An update by merging a live object succeeds, and the read after it sees the live object and the
desired one put together. -/
theorem perform_update_resubmit (hmode : k.updateMode = .resubmit)
    (hid : s.resource.Records k id) (hstored : s.world.state.objects (.ofId k id) = some v)
    (hv : v.WellFormed) (hreads : Object.decode? k v = some o)
    (hcomplete : (o.merged (d.movedTo id.ns?)).Complete)
    (hobserved : s.resource.observed = o.flatten) (ht : s.resource.desired.WellFormed)
    (hdesired : Object.expand k s.resource.desired = .ok d)
    (hreplaced : Patch.replacedFields k s.resource = .ok []) :
    ∃ s', ((Cluster.reconciler clock settings patience).update k).perform s = (.ok (), s') ∧
      s'.world.changes = s.world.changes + 1 ∧
      s'.resource.desired = s.resource.desired ∧
      Patch.betweenTrees k s'.resource.observed s'.resource.desired =
        .ok (Patch.between (o.merged (d.movedTo id.ns?)).configured.encode d.encode k.plan) := by
  obtain ⟨hname, -, -, -⟩ := Object.settled_of_expand ht hdesired
  have hseen : s.resource.seen ≠ [] := by
    have hentries : s.resource.seen = o.entries := Tree.map.inj hobserved
    rw [hentries]
    exact o.entries_ne_nil
  have hmerged : Reads (v.merge (d.movedTo id.ns?).encode) (o.merged (d.movedTo id.ns?)) :=
    ⟨Object.decode?_merge hv hreads _,
      Object.named_merged (Object.named_movedTo hname id.ns?) o, hcomplete⟩
  have hchange : Cluster.applyChange v (.merge (d.movedTo id.ns?).encode) =
      .ok (Cluster.bumped (v.merge (d.movedTo id.ns?).encode)) := rfl
  have hnext := perform_send_change clock settings patience hstored hchange
    ((Cluster.reconciler clock settings patience).read k)
  obtain ⟨s', o', hread, hrequests, hsame, -, hlooked, hname', hcomplete', hpatches⟩ :=
    perform_read_shown clock settings patience (s := ⟨s.resource, ⟨s.world.state.put (.ofId k id)
        (Cluster.bumped (v.merge (d.movedTo id.ns?).encode)),
        .change k id (.merge (d.movedTo id.ns?).encode) :: s.world.requests⟩⟩)
      (o := o.merged (d.movedTo id.ns?)) hid (by rw [Cluster.objects_put, if_pos rfl]) (by
        rw [Cluster.shown_of_not_isScaled (isScaled_of_resubmit hmode)]
        exact Cluster.readsLike_bumped hmerged)
  have hobserved' : s'.resource.observed = o'.flatten := congrArg Tree.map hlooked
  refine ⟨s', ?_, ?_, hsame, ?_⟩
  · rw [perform_update hid hseen hreplaced (pendingChange_of_resubmit hmode id hdesired)]
    exact hnext.trans hread
  · simp [Recorded.changes, hrequests, Request.verb]
  · rw [hobserved', hsame, Object.betweenTrees_flatten hname' hcomplete' hdesired, hpatches]

/-- If the body drops nothing then the labels and annotations that are dropped are still to be
removed after an update by merging, and nothing else is left to patch. -/
theorem update_leaves_removals (hmode : k.updateMode = .resubmit) (hid : s.resource.Records k id)
    (hstored : s.world.state.objects (.ofId k id) = some v) (hv : v.WellFormed)
    (hreads : Object.decode? k v = some o) (hobserved : s.resource.observed = o.flatten)
    (ht : s.resource.desired.WellFormed) (hdesired : Object.expand k s.resource.desired = .ok d)
    (hreplaced : Patch.replacedFields k s.resource = .ok [])
    (hretains : k.bodyPlan.retains o.configured.encode d.encode = true) :
    ∃ s', ((Cluster.reconciler clock settings patience).update k).perform s = (.ok (), s') ∧
      s'.world.changes = s.world.changes + 1 ∧
      s'.resource.desired = s.resource.desired ∧
      Patch.betweenTrees k s'.resource.observed s'.resource.desired =
        .ok (SharedMap.labels.removals o.configured.encode d.encode ++
          SharedMap.annotations.removals o.configured.encode d.encode) := by
  obtain ⟨-, hdcomplete, hdconfigured, -⟩ := Object.settled_of_expand ht hdesired
  -- What is sent is the desired object in the recorded namespace, which no rule looks at.
  have hsent : (d.movedTo id.ns?).Complete := Object.complete_movedTo hdcomplete id.ns?
  have hsettled := Object.configured_movedTo hdconfigured id.ns?
  have hguides := d.guides_movedTo id.ns?
  have hcomplete := Object.complete_merged hsent hsettled hguides hretains
  obtain ⟨s', hupdate, hchanges, hsame, hbetween⟩ := perform_update_resubmit clock settings patience
    hmode hid hstored hv hreads hcomplete hobserved ht hdesired hreplaced
  refine ⟨s', hupdate, hchanges, hsame, ?_⟩
  rw [hbetween, Object.between_merged hsent hsettled hguides hretains]

/-- An update by merging sends one change and leaves nothing to patch, if nothing is dropped that
may change in place. -/
theorem update_merges (hmode : k.updateMode = .resubmit) (hid : s.resource.Records k id)
    (hstored : s.world.state.objects (.ofId k id) = some v) (hv : v.WellFormed)
    (hreads : Object.decode? k v = some o) (hobserved : s.resource.observed = o.flatten)
    (ht : s.resource.desired.WellFormed) (hdesired : Object.expand k s.resource.desired = .ok d)
    (hreplaced : Patch.replacedFields k s.resource = .ok [])
    (hretains : k.plan.retains o.configured.encode d.encode = true) :
    ∃ s', ((Cluster.reconciler clock settings patience).update k).perform s = (.ok (), s') ∧
      s'.world.changes = s.world.changes + 1 ∧
      s'.resource.desired = s.resource.desired ∧
      Patch.betweenTrees k s'.resource.observed s'.resource.desired = .ok [] := by
  obtain ⟨hmaps, hbody⟩ := Object.retains_plan_iff.1 hretains
  obtain ⟨s', hupdate, hchanges, hsame, hbetween⟩ := update_leaves_removals clock settings patience
    hmode hid hstored hv hreads hobserved ht hdesired hreplaced hbody
  refine ⟨s', hupdate, hchanges, hsame, ?_⟩
  rw [hbetween, hmaps, hmaps]
  rfl

/-- The labels of an ingress. -/
def webLabels : TextMap := { entries := [("team", "a"), ("tier", "b")], sorted := by decide }

def web : Object .ingress :=
  ((some "web", none, some "default", some webLabels, none, none, none, none, none, ()),
    some (none, none, none, none, ()), none, ())

/-- The ingress as a cluster has it, with a member of its metadata that no type has. -/
def webDocument : Json :=
  .obj [("apiVersion", .str "networking.k8s.io/v1"), ("kind", .str "Ingress"),
    ("metadata", .obj [("labels", .obj [("team", .str "a"), ("tier", .str "b")]),
      ("name", .str "web"), ("namespace", .str "default"), ("zone", .str "west")]),
    ("spec", .obj [])]

/-- The ingress was seen and is to have other labels and a class. -/
def webSession (labels : List (String × Tree)) : Session (Recorded Cluster) where
  resource :=
    { id? := some "default/web"
      desired := .map [("metadata", .block [("labels", .map labels), ("name", .str "web")]),
        ("spec", .block [("ingress_class_name", .str "public")])]
      seen := web.entries
      sorted := Kind.ingress.fields.sorted_flatten web }
  world := ⟨Cluster.empty.put ⟨.ingress, some "default", "web"⟩ webDocument, []⟩

/-- A label is changed and a class is added. -/
theorem update_merges_relabelled :
    Object.decode? .ingress webDocument = some web ∧
    ∃ s', ((Cluster.reconciler stillClock .initial 0).update .ingress).perform
        (webSession [("team", .str "c"), ("tier", .str "b")]) = (.ok (), s') ∧
      Patch.betweenTrees .ingress s'.resource.observed s'.resource.desired = .ok [] := by
  have hid : (webSession [("team", .str "c"), ("tier", .str "b")]).resource.Records .ingress
      ⟨some "default", "web"⟩ := ⟨"default/web", rfl, rfl⟩
  have hv : webDocument.WellFormed := by decide +kernel
  have ht : (webSession [("team", .str "c"), ("tier", .str "b")]).resource.desired.WellFormed := by
    decide +kernel
  obtain ⟨s', hupdate, -, -, hconverged⟩ := update_merges stillClock .initial 0 rfl hid rfl hv rfl
    rfl ht rfl rfl (by decide +kernel)
  exact ⟨rfl, s', hupdate, hconverged⟩

/-- A label that is dropped stays, although the update succeeds. -/
theorem update_keeps_dropped_label :
    Object.decode? .ingress webDocument = some web ∧
    (webSession [("tier", .str "b")]).resource.observed = web.flatten ∧
    Patch.replacedFields .ingress (webSession [("tier", .str "b")]).resource = .ok [] ∧
    ∃ s', ((Cluster.reconciler stillClock .initial 0).update .ingress).perform
        (webSession [("tier", .str "b")]) = (.ok (), s') ∧
      Patch.betweenTrees .ingress s'.resource.observed s'.resource.desired =
        .ok [Patch.remove "/metadata/labels/team"] := by
  have hid : (webSession [("tier", .str "b")]).resource.Records .ingress
      ⟨some "default", "web"⟩ := ⟨"default/web", rfl, rfl⟩
  have hv : webDocument.WellFormed := by decide +kernel
  have ht : (webSession [("tier", .str "b")]).resource.desired.WellFormed := by decide +kernel
  obtain ⟨s', hupdate, -, -, hbetween⟩ := update_leaves_removals stillClock .initial 0 rfl hid rfl
    hv rfl rfl ht rfl rfl (by decide +kernel)
  refine ⟨rfl, rfl, rfl, s', hupdate, hbetween.trans ?_⟩
  rfl

end DesiredState.Reconciler
