import DesiredState.Proofs.Reconcile.Creation
import DesiredState.Proofs.Reconcile.Effect
import Mathlib.Logic.Function.Iterate

/-!
Adoptions write nothing.
An object that is taken over as it is, and then taken as what should be, needs
no patch however it is written: what its tree expands to is what it is
compared with. So all that updates do from then on is to read it, and the
resource stays as it is. An adoption that fails forgets what was known before,
unless it could not even read the identity.
-/
namespace DesiredState

namespace Resource

/-- Nothing changes if the same is seen again. -/
theorem refresh_seen (r : Resource) : r.refresh r.seen = r := by
  have hseen := r.seen_refresh r.sorted
  have hid := r.id?_refresh r.seen
  have hdesired := r.desired_refresh r.seen
  generalize r.refresh r.seen = refreshed at hseen hid hdesired
  cases refreshed
  cases r
  subst hseen hid hdesired
  rfl

theorem ofDesired_eq_iff (r : Resource) :
    ofDesired r.desired = r ↔ r.id? = none ∧ r.seen = [] := by
  constructor
  · intro h
    rw [← h]
    exact ⟨rfl, rfl⟩
  · rintro ⟨hid, hseen⟩
    cases r
    subst hid hseen
    rfl

end Resource

/-- The identity of a live object is recorded, and the object is both seen and desired. -/
structure Resource.Mirrors {k : Kind} (r : Resource) (id : ObjectId) (o : Object k) : Prop where
  recorded : r.Records k id
  seen : r.seen = o.entries
  desired : r.desired = o.flatten

namespace Resource.Mirrors

variable {k : Kind} {r : Resource} {id : ObjectId} {o : Object k}

theorem observed (h : r.Mirrors id o) : r.observed = o.flatten := congrArg Tree.map h.seen

theorem seen_ne_nil (h : r.Mirrors id o) : r.seen ≠ [] := h.seen ▸ o.entries_ne_nil

/-- What the tree of a live object expands to is what it was flattened from, as far as it is
configured. -/
theorem expand (h : r.Mirrors id o) (hname : o.Named) (hcomplete : o.Complete) :
    Object.expand k r.desired = .ok o.configured ∧
      Object.expand k r.observed = .ok o.configured := by
  rw [h.desired, h.observed, and_self]
  exact Object.expand_flatten_configured hname hcomplete

/-- No field asks for a new object. -/
theorem replacedFields (h : r.Mirrors id o) (hname : o.Named) (hcomplete : o.Complete) :
    Patch.replacedFields k r = .ok [] := by
  obtain ⟨hdesired, hobserved⟩ := h.expand hname hcomplete
  exact Patch.replacedFields_of_pointer?_eq hobserved hdesired fun _ _ => rfl

/-- Nothing is to be patched. -/
theorem betweenTrees (h : r.Mirrors id o) (hname : o.Named) (hcomplete : o.Complete) :
    Patch.betweenTrees k r.observed r.desired = .ok [] := by
  obtain ⟨hdesired, -⟩ := h.expand hname hcomplete
  obtain ⟨-, hconfigured, -, -⟩ :=
    Object.settled_of_expand o.wellFormed_flatten (h.desired ▸ hdesired)
  rw [h.observed, Object.betweenTrees_flatten hname hcomplete hdesired,
    Patch.between_of_pointer?_eq hconfigured fun _ _ => rfl]

end Resource.Mirrors

namespace Reconciler

open Operation
open Object (Reads)

variable (clock : Clock (Recorded Cluster)) (settings : Settings) (patience : Nat) {k : Kind}
  {s : Session (Recorded Cluster)} {id : ObjectId} {v : Json} {o : Object k}

/-- A read of a live object sees it as it is stored and changes none of the stored ones. -/
theorem perform_read_live (hid : s.resource.Records k id) (hcounted : s.world.state.Counted)
    (hstored : s.world.state.objects (.ofId k id) = some v) (hlive : Reads v o) :
    ∃ c, ((Cluster.reconciler clock settings patience).read k).perform s =
        (.ok (), ⟨s.resource.refresh o.entries, ⟨c, .get k id :: s.world.requests⟩⟩) ∧
      c.objects = s.world.state.objects ∧ c.Counted := by
  obtain ⟨seen, hseen, -⟩ := Cluster.readsLike_shown hcounted hlive
  have hsame := Cluster.entries_of_shown hlive.decoded hseen.decoded
  refine ⟨(s.world.state.shown k v).2, ?_, s.world.state.objects_shown k v,
    Cluster.counted_shown hcounted k v⟩
  rw [← hsame]
  exact (perform_read_stored clock settings patience hid hstored).2 ⟨seen, hseen.decoded, rfl⟩

/-- An adoption succeeds for a live object. -/
theorem perform_adopt_live {text : String} (htext : ObjectId.ofText? k.scope text = some id)
    (hcounted : s.world.state.Counted)
    (hstored : s.world.state.objects (.ofId k id) = some v) (hlive : Reads v o) :
    ∃ c, ((Cluster.reconciler clock settings patience).adopt k text).perform s =
        (.ok (), ⟨(s.resource.setId (some text)).refresh o.entries,
          ⟨c, .get k id :: s.world.requests⟩⟩) ∧
      c.objects = s.world.state.objects ∧ c.Counted := by
  have hdecode : ObjectId.decode k.scope text = .ok id := ObjectId.decode_eq_ok.2 htext
  have hid : (s.resource.setId (some text)).Records k id := ⟨text, rfl, hdecode⟩
  obtain ⟨c, hread, hobjects, hkept⟩ := perform_read_live clock settings patience
    (s := ⟨s.resource.setId (some text), s.world⟩) hid hcounted hstored hlive
  refine ⟨c, ?_, hobjects, hkept⟩
  unfold adopt
  rw [hdecode, perform_bind, perform_require, Outcome.mapError_ok]
  dsimp only
  rw [perform_bind, perform_keep, ObjectId.text_of_ofText? htext]
  dsimp only
  rw [perform_tryCatch, hread]

/-- An update of a live object that is seen and desired as it is only reads it. -/
theorem perform_update_mirrored (hmode : k.updateMode = .patch) (hmirrors : s.resource.Mirrors id o)
    (hcounted : s.world.state.Counted)
    (hstored : s.world.state.objects (.ofId k id) = some v) (hlive : Reads v o) :
    ∃ c, ((Cluster.reconciler clock settings patience).update k).perform s =
        (.ok (), ⟨s.resource, ⟨c, .get k id :: s.world.requests⟩⟩) ∧
      c.objects = s.world.state.objects ∧ c.Counted := by
  have hpatch := hmirrors.betweenTrees hlive.named hlive.complete
  obtain ⟨c, hread, hobjects, hkept⟩ := perform_read_live clock settings patience
    hmirrors.recorded hcounted hstored hlive
  rw [← hmirrors.seen, s.resource.refresh_seen] at hread
  refine ⟨c, ?_, hobjects, hkept⟩
  rw [perform_update hmirrors.recorded hmirrors.seen_ne_nil
    (hmirrors.replacedFields hlive.named hlive.complete) (pendingChange_of_nil hmode id hpatch)]
  exact hread

/-- Any number of updates one after the other only read the object. -/
theorem iterate_update_mirrored (hmode : k.updateMode = .patch)
    (hmirrors : s.resource.Mirrors id o) (hcounted : s.world.state.Counted)
    (hstored : s.world.state.objects (.ofId k id) = some v) (hlive : Reads v o) (n : Nat) :
    ∃ c, (fun s => (((Cluster.reconciler clock settings patience).update k).perform s).2)^[n] s =
        ⟨s.resource, ⟨c, List.replicate n (.get k id) ++ s.world.requests⟩⟩ ∧
      c.objects = s.world.state.objects ∧ c.Counted := by
  induction n with
  | zero => exact ⟨s.world.state, rfl, rfl, hcounted⟩
  | succ n ih =>
    obtain ⟨c, hrun, hobjects, hkept⟩ := ih
    obtain ⟨c', hupdate, hobjects', hkept'⟩ := perform_update_mirrored clock settings patience
      (s := ⟨s.resource, ⟨c, List.replicate n (.get k id) ++ s.world.requests⟩⟩) hmode hmirrors
      hkept (hobjects ▸ hstored) hlive
    refine ⟨c', ?_, hobjects'.trans hobjects, hkept'⟩
    rw [Function.iterate_succ_apply', hrun, hupdate]
    rfl

/-- A live object that is adopted and taken as what should be is never written by updates: the
adoption and every update succeed, all that they ask for is to read the object, and the stored
objects and the resource stay as they are. -/
theorem adoption_writes_nothing (hmode : k.updateMode = .patch) {text : String}
    (htext : ObjectId.ofText? k.scope text = some id) (hcounted : s.world.state.Counted)
    (hstored : s.world.state.objects (.ofId k id) = some v)
    (hreads : Object.decode? k v = some o) (hname : o.Named)
    (hdemands : ∀ path ∈ k.demands, Json.Holds path (k.fields.encode o)) (n : Nat) :
    let r := Cluster.reconciler clock settings patience
    ∃ adopted committed updated : Session (Recorded Cluster),
      (r.act (.adopt k text)).perform s = (.ok (), adopted) ∧
      (r.act .commit).perform adopted = (.ok (), committed) ∧
      (r.act (.update k)).perform
          ((fun s => ((r.act (.update k)).perform s).2)^[n] committed) = (.ok (), updated) ∧
      updated.resource = committed.resource ∧
      updated.world.state.objects = s.world.state.objects ∧
      updated.world.requests = List.replicate (n + 2) (.get k id) ++ s.world.requests := by
  have hlive : Reads v o := ⟨hreads, hname, o.complete_iff.2 hdemands⟩
  obtain ⟨c, hadopt, hobjects, hkept⟩ := perform_adopt_live clock settings patience htext hcounted
    hstored hlive
  have hmirrors : ((s.resource.setId (some text)).refresh o.entries).commit.Mirrors id o := by
    have hseen := (s.resource.setId (some text)).seen_refresh (k.fields.sorted_flatten o)
    refine ⟨⟨text, Resource.id?_refresh _ _, by simp [ObjectId.decode, htext]⟩, hseen, ?_⟩
    exact congrArg Tree.map hseen
  obtain ⟨c', hrun, hobjects', hkept'⟩ := iterate_update_mirrored clock settings patience
    (s := ⟨_, ⟨c, .get k id :: s.world.requests⟩⟩) hmode hmirrors hkept (hobjects ▸ hstored) hlive n
  obtain ⟨c'', hupdate, hobjects'', -⟩ := perform_update_mirrored clock settings patience
    (s := ⟨_, ⟨c', List.replicate n (.get k id) ++ .get k id :: s.world.requests⟩⟩) hmode hmirrors
    hkept' ((hobjects'.trans hobjects) ▸ hstored) hlive
  refine ⟨_, _, _, hadopt, rfl, (congrArg _ hrun).trans hupdate, rfl,
    hobjects''.trans (hobjects'.trans hobjects), ?_⟩
  rw [List.replicate_succ, List.replicate_succ', List.cons_append, List.append_assoc]
  rfl

/-- A role that a controller annotated, with permissions in no order and a member that is not
read. -/
def auditorDocument : Json :=
  .obj [("immutable", .bool true),
    ("metadata", .obj [("annotations", .obj [("audit.kubernetes.io/level", .str "full")]),
      ("name", .str "auditor"), ("namespace", .str "default")]),
    ("rules", .arr [.obj [("verbs", .arr [.str "list", .str "get", .str "list"])]])]

/-- The role is stored, and the resource still keeps what is known of another one. -/
def auditorSession : Session (Recorded Cluster) where
  resource := readerSession.resource
  world := ⟨Cluster.empty.put ⟨.role, some "default", "auditor"⟩ auditorDocument, []⟩

theorem adoption_writes_nothing_auditor :
    ObjectId.ofText? .namespaced "default/auditor" = some ⟨some "default", "auditor"⟩ ∧
    ∃ o, Object.decode? .role auditorDocument = some o ∧ o.Named ∧
      ∃ adopted committed updated : Session (Recorded Cluster),
        ((Cluster.reconciler stillClock .initial 0).act
          (.adopt .role "default/auditor")).perform auditorSession = (.ok (), adopted) ∧
        ((Cluster.reconciler stillClock .initial 0).act .commit).perform adopted =
          (.ok (), committed) ∧
        ((Cluster.reconciler stillClock .initial 0).act (.update .role)).perform committed =
          (.ok (), updated) ∧
        updated.world.state.objects ⟨.role, some "default", "auditor"⟩ = some auditorDocument ∧
        updated.world.changes = 0 := by
  have htext : ObjectId.ofText? .namespaced "default/auditor" = some ⟨some "default", "auditor"⟩ :=
    rfl
  have hcounted : auditorSession.world.state.Counted := fun ready hready => by cases hready
  obtain ⟨o, ho⟩ : ∃ o, Object.decode? .role auditorDocument = some o := ⟨_, rfl⟩
  have hname : o.Named := by
    cases ho
    exact Or.inl rfl
  have hdemands : ∀ path ∈ Kind.role.demands, Json.Holds path (Kind.role.fields.encode o) :=
    fun path hpath => by cases hpath
  obtain ⟨adopted, committed, updated, hadopt, hcommit, hupdate, -, hobjects, hrequests⟩ :=
    adoption_writes_nothing stillClock .initial 0 (k := .role) rfl htext hcounted rfl ho hname
      hdemands 0
  refine ⟨htext, o, ho, hname, adopted, committed, updated, hadopt, hcommit, hupdate, ?_, ?_⟩
  · rw [hobjects]
    rfl
  · simp only [Recorded.changes, hrequests]
    rfl

/-- An adoption that fails with a well-formed identity drops the recorded one and all that was
seen. -/
theorem resource_of_adopt_error {σ : Type} {r : Reconciler σ} {text : String} {s s' : Session σ}
    {stop : Stop} (h : (r.act (.adopt k text)).perform s = (.error stop, s')) :
    s'.resource = if ObjectId.ofText? k.scope text = none then s.resource
      else .ofDesired s.resource.desired := by
  obtain ⟨made, -, heffect⟩ := r.effect_adopt k s.resource text ⟨s.world, []⟩
  have haccount := (r.perform_act_eq_account (.adopt k text) s.resource s.world).symm.trans h
  obtain ⟨hresult, hsession⟩ := Prod.mk.inj haccount
  have hresource : (r.account (.adopt k text) s.resource s.world).2.resource = s'.resource :=
    congrArg Session.resource hsession
  rw [← hresource]
  split
  · rename_i hmalformed
    exact heffect.malformed hmalformed
  · rename_i hwell
    obtain ⟨id, hid⟩ := Option.ne_none_iff_exists'.1 hwell
    exact heffect.dropped id hid fun hok => nomatch hresult.symm.trans hok

/-- An adoption that fails keeps the desired tree, and it leaves the resource as it was just where
the identity is malformed or nothing was recorded and seen before. -/
theorem failed_adoption_restores {σ : Type} (r : Reconciler σ) (text : String) {s s' : Session σ}
    {stop : Stop} (h : (r.act (.adopt k text)).perform s = (.error stop, s')) :
    s'.resource.desired = s.resource.desired ∧
    (s'.resource = s.resource ↔ ObjectId.ofText? k.scope text = none ∨
      s.resource.id? = none ∧ s.resource.seen = []) := by
  rw [resource_of_adopt_error h]
  split
  · rename_i hmalformed
    simp [hmalformed]
  · rename_i hwell
    exact ⟨rfl, by rw [Resource.ofDesired_eq_iff, or_iff_right hwell]⟩

theorem failed_adoption_restores_fresh :
    ∃ stop s', ((Cluster.reconciler stillClock .initial 0).act
        (.adopt .role "default/missing")).perform ⟨.initial, ⟨.empty, []⟩⟩ = (.error stop, s') ∧
      s'.resource = .initial := by
  obtain ⟨s', hadopt⟩ : ∃ s', ((Cluster.reconciler stillClock .initial 0).act
      (.adopt .role "default/missing")).perform ⟨.initial, ⟨.empty, []⟩⟩ =
        (.error (.fault (.notFound "Role default/missing not found")), s') := ⟨_, rfl⟩
  obtain ⟨-, hsame⟩ := failed_adoption_restores _ _ hadopt
  exact ⟨_, s', hadopt, hsame.2 (.inr ⟨rfl, rfl⟩)⟩

/-- An adoption that fails can drop what was recorded of another object. -/
theorem not_restored_auditor :
    ∃ stop s', ((Cluster.reconciler stillClock .initial 0).act
        (.adopt .role "default/missing")).perform auditorSession = (.error stop, s') ∧
      auditorSession.resource.id? = some "default/reader" ∧ s'.resource.id? = none ∧
      auditorSession.resource.seen ≠ [] ∧ s'.resource.seen = [] :=
  ⟨.fault (.notFound "Role default/missing not found"), _, rfl, rfl, rfl, nofun, rfl⟩

end Reconciler

end DesiredState
