import DesiredState.Proofs.Kind.Merged
import DesiredState.Proofs.Patch.Exhaustive
import DesiredState.Proofs.Patch.Sparing
import DesiredState.Proofs.Reconcile.Ending
import DesiredState.Proofs.Reconcile.Erasure
import DesiredState.Proofs.Reconcile.Resubmit

/-!
Updates keep identities.
What an update writes is a change of the recorded object that leaves its name
and its namespace alone. The steps of a patch spare them. A whole object is
moved to the recorded namespace but goes by its desired name, so what is desired
must give the recorded name or none. A cluster then keeps the object under the
name that it carries.
-/
namespace DesiredState

open Json (resolve?)

/-- The document of an object carries the name of an identity, and its namespace if it has one. -/
structure ObjectId.CarriedBy (id : ObjectId) (v : Json) : Prop where
  name : resolve? ["metadata", "name"] v = some (.str id.name)
  ns : ∀ ns, id.ns? = some ns → resolve? ["metadata", "namespace"] v = some (.str ns)

/-- The documents have the same name and the same namespace. -/
def Json.SameAddress (v w : Json) : Prop :=
  resolve? ["metadata", "name"] w = resolve? ["metadata", "name"] v ∧
    resolve? ["metadata", "namespace"] w = resolve? ["metadata", "namespace"] v

/-- A change that an object with the identity takes without becoming another one. -/
def Change.KeepsIdentity (id : ObjectId) : Change → Prop
  | .steps sent => ∀ path ∈ identityPaths, ∀ s ∈ sent, s.Spares path
  | .merge body => body.WellFormed ∧
    (∃ ns, id.ns? = some ns ∧ resolve? ["metadata", "namespace"] body = some (.str ns)) ∧
      (resolve? ["metadata", "name"] body = none ∨
        resolve? ["metadata", "name"] body = some (.str id.name))

/-- What is desired of an object that is sent as a whole gives the recorded name or none. -/
def Resource.KeepsName (r : Resource) (k : Kind) : Prop :=
  k.updateMode = .resubmit → ∀ id d name, r.Records k id → Object.expand k r.desired = .ok d →
    d.metadata.name? = some name → name = id.name

theorem Resource.KeepsName.refresh {r : Resource} {k : Kind} (h : r.KeepsName k)
    (entries : List (String × Tree)) : (r.refresh entries).KeepsName k := by
  intro hmode id d name hid hexpand
  rw [r.desired_refresh] at hexpand
  exact h hmode id d name ((r.records_refresh entries).1 hid) hexpand

/-- An identity that is recorded for a namespaced kind has a namespace. -/
theorem Resource.Records.exists_ns {r : Resource} {k : Kind} {id : ObjectId} (h : r.Records k id)
    (hscope : k.scope = .namespaced) : ∃ ns, id.ns? = some ns := by
  obtain ⟨text, -, hdecode⟩ := h
  have hid : id.scope = .namespaced := (ObjectId.decode_iff.1 hdecode).1.trans hscope
  unfold ObjectId.scope at hid
  split at hid
  · rename_i hsome
    exact Option.isSome_iff_exists.1 hsome
  · cases hid

namespace Json

/-- What a name leads to is a member of an object. -/
theorem exists_of_step? {v c : Json} {token : String} (htoken : Pointer.index? token = none)
    (h : v.step? token = some c) :
    ∃ members, v = .obj members ∧ Entries.get? members token = some c := by
  cases v with
  | obj members => exact ⟨members, rfl, h⟩
  | arr items =>
    rw [Patch.step?_arr htoken] at h
    cases h
  | _ => cases h

/-- What is in the metadata of a document is a member of an object that is one itself. -/
theorem exists_of_resolve?_metadata {v x : Json} {key : String}
    (hkey : Pointer.index? key = none) (h : resolve? ["metadata", key] v = some x) :
    ∃ members inner, v = .obj members ∧ Entries.get? members "metadata" = some (.obj inner) ∧
      Entries.get? inner key = some x := by
  obtain ⟨c, hc, h⟩ := Option.bind_eq_some_iff.1 h
  obtain ⟨x, hx, heq⟩ := Option.bind_eq_some_iff.1 h
  cases heq
  obtain ⟨members, rfl, hmetadata⟩ := exists_of_step? (by decide +kernel) hc
  obtain ⟨inner, rfl, hmember⟩ := exists_of_step? hkey hx
  exact ⟨members, inner, rfl, hmetadata, hmember⟩

theorem resolve?_metadata {members inner : List (String × Json)}
    (h : Entries.get? members "metadata" = some (.obj inner)) (key : String) :
    resolve? ["metadata", key] (.obj members) = Entries.get? inner key := by
  rw [resolve?_cons, h, Option.bind_some, resolve?_singleton]

end Json

theorem named_identityPaths : ∀ path ∈ identityPaths, Patch.Named path := by
  unfold Patch.Named
  decide +kernel

namespace Kind

/-- No operation of a patch is near the identity. -/
theorem spares_identity (k : Kind) (previous desired : Json) :
    ∀ path ∈ identityPaths, ∀ op ∈ Patch.between previous desired k.plan,
      Patch.Spares path op.pointer := by
  intro path hpath op hop
  obtain ⟨r, hr, hop⟩ := List.mem_flatMap.1 hop
  obtain ⟨parents, key, -, htokens, -⟩ := k.place_of_mem_plan hr
  have hapart := k.apart_identityPaths r hr path hpath
  rw [htokens, Option.getD_some] at hapart
  exact Patch.spares_of_mem_ruleOperations htokens hapart hop

theorem scope_of_resubmit {k : Kind} (h : k.updateMode = .resubmit) : k.scope = .namespaced := by
  cases k <;> first | rfl | cases h

end Kind

namespace Object

variable {k : Kind}

theorem resolve?_name_movedTo (d : Object k) (ns? : Option String) :
    resolve? ["metadata", "name"] (d.movedTo ns?).encode = d.metadata.name?.map Json.str := by
  rw [resolve?_name]
  cases ns? <;> rfl

theorem resolve?_ns_movedTo (d : Object k) (ns : String) :
    resolve? ["metadata", "namespace"] (d.movedTo (some ns)).encode = some (.str ns) :=
  (revised_withNamespace d ns).slot

end Object

namespace Reconciler

/-- The change that an update sends keeps the identity that is recorded. -/
theorem keepsIdentity_of_pendingChange {k : Kind} {id : ObjectId} {resource : Resource}
    (hid : resource.Records k id) (hname : resource.KeepsName k) {change : Change}
    (h : pendingChange k id resource = .ok (some change)) : change.KeepsIdentity id := by
  cases hmode : k.updateMode with
  | patch =>
    simp only [pendingChange, hmode] at h
    obtain ⟨patch, hbetween, h⟩ := Outcome.bind_eq_ok.1 h
    split at h
    · cases h
    · obtain ⟨steps, hsteps, heq⟩ := Outcome.bind_eq_ok.1 h
      cases heq
      obtain ⟨p, -, hbetween⟩ := Outcome.bind_eq_ok.1 hbetween
      obtain ⟨d, -, hbetween⟩ := Outcome.bind_eq_ok.1 hbetween
      cases hbetween
      exact fun path hpath => Patch.spares_of_toSteps (k.spares_identity p d path hpath) hsteps
  | resubmit =>
    cases hexpand : Object.expand k resource.desired with
    | error e => simp [pendingChange, hmode, hexpand] at h
    | ok d =>
      rw [pendingChange_of_resubmit hmode id hexpand] at h
      cases h
      obtain ⟨ns, hns⟩ := hid.exists_ns (Kind.scope_of_resubmit hmode)
      refine ⟨Kind.wellFormed_encode _, ⟨ns, hns, hns ▸ d.resolve?_ns_movedTo ns⟩, ?_⟩
      · rw [d.resolve?_name_movedTo]
        cases hgiven : d.metadata.name? with
        | none => exact Or.inl rfl
        | some name =>
          obtain rfl := hname hmode id d name hid hexpand hgiven
          exact Or.inr rfl

end Reconciler

/-- Whatever is written is a change of the recorded object that keeps its identity. -/
def KeepsRecorded (k : Kind) (before : Resource) (x : Exchange) : Prop :=
  x.request.isWrite = true → ∃ id change, before.Records k id ∧
    x.request = .change k id change ∧ change.KeepsIdentity id

section

variable {k : Kind} {before after : Resource} {result : Except Stop Unit} {made : List Exchange}

theorem ReadEnd.keepsRecorded (h : ReadEnd k before result made after) (recorded : Resource) :
    ∀ x ∈ made, KeepsRecorded k recorded x := by
  have hread : ∀ (id : ObjectId) (reply : Except Error Json),
      KeepsRecorded k recorded ⟨.get k id, reply⟩ := fun _ _ => nofun
  cases h with
  | unrecorded => exact fun _ hx => absurd hx List.not_mem_nil
  | failed => exact List.forall_mem_singleton.2 (hread _ _)
  | unreadable => exact List.forall_mem_singleton.2 (hread _ _)
  | taken => exact List.forall_mem_singleton.2 (hread _ _)

theorem AmendEnd.keepsRecorded {id : ObjectId} (h : AmendEnd k id before result made after)
    (hid : before.Records k id) (hname : before.KeepsName k) :
    ∀ x ∈ made, KeepsRecorded k before x := by
  have hsent : ∀ {change : Change} (reply : Except Error Json),
      Reconciler.pendingChange k id before = .ok (some change) →
      KeepsRecorded k before ⟨.change k id change, reply⟩ := fun reply hchange _ =>
    ⟨id, _, hid, rfl, Reconciler.keepsIdentity_of_pendingChange hid hname hchange⟩
  cases h with
  | refused => exact fun _ hx => absurd hx List.not_mem_nil
  | unchanged _ hread => exact hread.keepsRecorded before
  | failed hchange => exact List.forall_mem_singleton.2 (hsent _ hchange)
  | changed hchange hread =>
    exact List.forall_mem_append.2
      ⟨hread.keepsRecorded before, List.forall_mem_singleton.2 (hsent _ hchange)⟩

theorem UpdateEnd.keepsRecorded (h : UpdateEnd k before result made after)
    (hname : before.KeepsName k) : ∀ x ∈ made, KeepsRecorded k before x := by
  cases h with
  | unrecorded => exact fun _ hx => absurd hx List.not_mem_nil
  | unseen _ hread => exact hread.keepsRecorded before
  | looked hid _ hread hamend =>
    refine List.forall_mem_append.2 ⟨?_, hread.keepsRecorded before⟩
    cases hread with
    | @taken _ _ o _ _ =>
      -- The first read changes nothing of what is recorded and desired.
      intro x hx hwrite
      obtain ⟨other, change, hother, hrest⟩ := hamend.keepsRecorded
        ((before.records_refresh _).2 hid) (hname.refresh _) x hx hwrite
      exact ⟨other, change, (before.records_refresh _).1 hother, hrest⟩
  | known hid _ hamend => exact hamend.keepsRecorded hid hname

end

namespace Json.SameAddress

variable {u v w : Json}

theorem rfl_at (v : Json) : v.SameAddress v := ⟨rfl, rfl⟩

theorem trans (h : v.SameAddress w) (h' : w.SameAddress u) : v.SameAddress u :=
  ⟨h'.1.trans h.1, h'.2.trans h.2⟩

end Json.SameAddress

theorem ObjectId.CarriedBy.of_sameAddress {id : ObjectId} {v w : Json} (h : id.CarriedBy v)
    (hsame : v.SameAddress w) : id.CarriedBy w :=
  ⟨hsame.1.trans h.name, fun ns hns => hsame.2.trans (h.ns ns hns)⟩

namespace Cluster

variable {id : ObjectId} {v w : Json}

theorem sameAddress_bumped {x : Json} (h : resolve? ["metadata", "name"] v = some x) :
    v.SameAddress (bumped v) := by
  obtain ⟨members, inner, rfl, hmetadata, -⟩ := Json.exists_of_resolve?_metadata
    (by decide +kernel) h
  have hbumped : ∀ key, key ≠ "resourceVersion" →
      resolve? ["metadata", key] (bumped (.obj members)) =
        resolve? ["metadata", key] (.obj members) := by
    intro key hkey
    rw [bumped, setMetadata_obj hmetadata, Json.resolve?_metadata hmetadata,
      Json.resolve?_metadata (by rw [Entries.get?_insert, if_pos rfl]), Entries.get?_insert,
      if_neg (Ne.symm hkey)]
  exact ⟨hbumped "name" (by decide), hbumped "namespace" (by decide)⟩

/-- Merging two documents that have metadata merges these member by member. -/
theorem resolve?_metadata_merge {members inner : List (String × Json)}
    (hmetadata : Entries.get? members "metadata" = some (.obj inner))
    {changes changed : List (String × Json)} (hbody : (Json.obj changes).WellFormed)
    (hchanged : Entries.get? changes "metadata" = some (.obj changed)) (key : String) :
    resolve? ["metadata", key] ((Json.obj members).merge (.obj changes)) =
      Json.mergeMember (Entries.get? inner key) (Entries.get? changed key) := by
  have hstep : (Json.obj changes).step? "metadata" = some (.obj changed) := hchanged
  have hsorted : Entries.Sorted changed := (hbody.step? hstep).1
  have hmerged : Entries.get? (Json.mergeMembers members changes) "metadata" =
      some (.obj (Json.mergeMembers inner changed)) := by
    rw [Json.get?_mergeMembers hbody.1, hmetadata, hchanged]
    simp [Json.mergeMember, Json.isNull, Json.merge]
  rw [Json.merge, Json.resolve?_metadata hmerged, Json.get?_mergeMembers hsorted]

theorem sameAddress_of_merge {body : Json} (hkeeps : (Change.merge body).KeepsIdentity id)
    (hv : id.CarriedBy v) : v.SameAddress (v.merge body) := by
  obtain ⟨hbody, ⟨ns, hns, hmoved⟩, hname⟩ := hkeeps
  obtain ⟨members, inner, rfl, hmetadata, -⟩ := Json.exists_of_resolve?_metadata
    (by decide +kernel) hv.name
  obtain ⟨changes, changed, rfl, hchanged, -⟩ := Json.exists_of_resolve?_metadata
    (by decide +kernel) hmoved
  have hv' := hv.name
  have hns' := hv.ns ns hns
  rw [Json.resolve?_metadata hmetadata] at hv' hns'
  rw [Json.resolve?_metadata hchanged] at hmoved hname
  refine ⟨?_, ?_⟩
  · rw [resolve?_metadata_merge hmetadata hbody hchanged, Json.resolve?_metadata hmetadata, hv']
    rcases hname with hname | hname
    · rw [hname]
      rfl
    · rw [hname]
      simp [Json.mergeMember, Json.isNull]
  · rw [resolve?_metadata_merge hmetadata hbody hchanged, Json.resolve?_metadata hmetadata, hns',
      hmoved]
    simp [Json.mergeMember, Json.isNull]

/-- An object that carries the identity keeps its name and its namespace. -/
theorem sameAddress_of_applyChange {change : Change} (hkeeps : change.KeepsIdentity id)
    (hv : id.CarriedBy v) (h : applyChange v change = .ok w) : v.SameAddress w := by
  cases change with
  | steps sent =>
    simp only [applyChange] at h
    split at h
    · rename_i u hu
      cases h
      have hspared : ∀ path ∈ identityPaths, resolve? path u = resolve? path v :=
        fun path hpath => Patch.resolve?_applyAll (named_identityPaths path hpath)
          (hkeeps path hpath) hu
      have hsame : v.SameAddress u := ⟨hspared _ (by decide), hspared _ (by decide)⟩
      exact hsame.trans (sameAddress_bumped (hsame.1.trans hv.name))
    · cases h
  | merge body =>
    cases h
    have hsame := sameAddress_of_merge hkeeps hv
    exact hsame.trans (sameAddress_bumped (hsame.1.trans hv.name))

/-- The object that is stored for an identity has the name and the namespace of the document. -/
def HasAddress (k : Kind) (id : ObjectId) (v : Json) (c : Cluster) : Prop :=
  ∃ w, c.objects (.ofId k id) = some w ∧ v.SameAddress w

/-- Requests that write nothing but changes of the object that keep its identity. -/
theorem HasAddress.answer {k : Kind} {c : Cluster} (h : c.HasAddress k id v) (hv : id.CarriedBy v)
    {request : Request} (hrequest : request.isWrite = true → ∃ change,
      request = .change k id change ∧ change.KeepsIdentity id) :
    (Cluster.store.answer request c).2.HasAddress k id v := by
  cases request with
  | create => obtain ⟨_, heq, -⟩ := hrequest rfl; cases heq
  | delete => obtain ⟨_, heq, -⟩ := hrequest rfl; cases heq
  | warnings => exact h
  | get kind other =>
    simp only [store, Cluster.answer]
    split
    · obtain ⟨w, hw, hsame⟩ := h
      exact ⟨w, by rw [objects_shown, hw], hsame⟩
    · exact h
  | change kind other change =>
    obtain ⟨_, heq, hkeeps⟩ := hrequest rfl
    cases heq
    obtain ⟨w, hw, hsame⟩ := h
    simp only [store, Cluster.answer, hw]
    split
    · rename_i u hu
      have hcarried := hv.of_sameAddress hsame
      refine ⟨u, by rw [objects_put, if_pos rfl], ?_⟩
      exact hsame.trans (sameAddress_of_applyChange hkeeps hcarried hu)
    · exact ⟨w, hw, hsame⟩

end Cluster

namespace Reconciler

open Operation

/-- An update does not look at the clock. -/
theorem update_clock {σ : Type} (q : Reconciler σ) (clock : Clock σ) (k : Kind) :
    ({ q with clock } : Reconciler σ).update k = q.update k := rfl

variable {k : Kind} {before : Resource}

theorem keepsRecorded_update {σ : Type} (r : Reconciler σ) (hname : before.KeepsName k) :
    (r.chronicled.update k).Ensures before fun _ made _ => ∀ x ∈ made, KeepsRecorded k before x :=
  (ends_update r k before).mono fun _ _ _ hend => hend.keepsRecorded hname

variable (clock : Clock (Recorded Cluster)) (settings : Settings) (patience : Nat)

/-- The object that is recorded keeps its name and its namespace in a cluster. -/
theorem hasAddress_update {s : Session (Recorded Cluster)} (hname : s.resource.KeepsName k)
    {id : ObjectId} (hid : s.resource.Records k id) {v : Json} (hv : id.CarriedBy v)
    (hstored : s.world.state.objects (.ofId k id) = some v) :
    (((Cluster.reconciler clock settings patience).update k).perform
      s).2.world.state.HasAddress k id v := by
  have hmade := keepsRecorded_update (Cluster.reconciler stillClock settings patience) hname
  have hacts := (Cluster.reconciler stillClock settings patience).chronicled.actsThrough_act
    (.update k)
  have hkept := hacts.keeps (Q := fun w => w.state.HasAddress k id v)
    (fun request w hrequest hw => hw.answer hv fun hwrite => by
      obtain ⟨other, change, hother, heq, hkeeps⟩ := hrequest hwrite
      obtain rfl := hid.unique hother
      exact ⟨change, heq, hkeeps⟩)
    (fun _ _ hw => hw) hmade ⟨s.world, []⟩ ⟨v, hstored, .rfl_at v⟩
  have hplain := perform_act_eq_account (Cluster.reconciler stillClock settings patience)
    (.update k) s.resource s.world
  have hsame : (Cluster.reconciler clock settings patience).update k =
      (Cluster.reconciler stillClock settings patience).act (.update k) :=
    update_clock (Cluster.reconciler stillClock settings patience) clock k
  rw [hsame, hplain]
  exact hkept

/-- An update writes nothing but a change of the recorded object that leaves its name and its
namespace alone, and so does a cluster, if an object that is sent as a whole is desired under its
recorded name or under none. -/
theorem update_keeps_identity (hname : before.KeepsName k) :
    (∀ {σ : Type} (r : Reconciler σ) (state : σ),
      ∀ x ∈ (r.account (.update k) before state).2.world.exchanges, KeepsRecorded k before x) ∧
    ∀ (s : Session (Recorded Cluster)) (id : ObjectId) (v : Json), s.resource = before →
      before.Records k id → s.world.state.objects (.ofId k id) = some v → id.CarriedBy v →
      ∃ w, (((Cluster.reconciler clock settings patience).update k).perform
          s).2.world.state.objects (.ofId k id) = some w ∧
        v.SameAddress w ∧ id.CarriedBy w := by
  refine ⟨fun r state => ?_, fun s id v hbefore hid hstored hv => ?_⟩
  · obtain ⟨made, hmade, hall⟩ := keepsRecorded_update r hname ⟨state, []⟩
    have hexchanges : (r.account (.update k) before state).2.world.exchanges = made :=
      hmade.trans (List.append_nil made)
    rw [hexchanges]
    exact hall
  · subst hbefore
    obtain ⟨w, hw, hsame⟩ :=
      hasAddress_update clock settings patience hname hid hv hstored
    exact ⟨w, hw, hsame, hv.of_sameAddress hsame⟩

theorem carriedBy_webDocument : (⟨some "default", "web"⟩ : ObjectId).CarriedBy webDocument :=
  by
  refine ⟨rfl, fun ns hns => ?_⟩
  cases hns
  rfl

/-- A label is changed and a class is added. -/
theorem update_keeps_identity_relabelled :
    (webSession [("team", .str "c")]).resource.KeepsName .ingress ∧
    ∃ w, (((Cluster.reconciler stillClock .initial 0).update .ingress).perform
        (webSession [("team", .str "c")])).2.world.state.objects
          (.ofId .ingress ⟨some "default", "web"⟩) = some w ∧
      (⟨some "default", "web"⟩ : ObjectId).CarriedBy w := by
  have hid : (webSession [("team", .str "c")]).resource.Records .ingress
      ⟨some "default", "web"⟩ := ⟨"default/web", rfl, rfl⟩
  have hname : (webSession [("team", .str "c")]).resource.KeepsName .ingress := by
    intro _ id d name hrecorded hexpand hgiven
    rw [hid.unique hrecorded]
    cases hexpand
    cases hgiven
    rfl
  obtain ⟨-, hstore⟩ := update_keeps_identity stillClock .initial 0 hname
  obtain ⟨w, hw, -, hcarried⟩ := hstore (webSession [("team", .str "c")]) ⟨some "default", "web"⟩
    webDocument rfl hid rfl carriedBy_webDocument
  exact ⟨hname, w, hw, hcarried⟩

/-- The ingress is to have another name. -/
def renamedSession : Session (Recorded Cluster) :=
  { webSession [] with
    resource := (webSession []).resource.setDesired
      (.map [("metadata", .block [("name", .str "other")]), ("spec", .block [])]) }

/-- An ingress that is desired under another name is renamed where it is stored. -/
theorem update_renames :
    renamedSession.resource.Records .ingress ⟨some "default", "web"⟩ ∧
    renamedSession.world.state.objects (.ofId .ingress ⟨some "default", "web"⟩) = some webDocument ∧
    (⟨some "default", "web"⟩ : ObjectId).CarriedBy webDocument ∧
    ∃ s', ((Cluster.reconciler stillClock .initial 0).update .ingress).perform renamedSession =
        (.ok (), s') ∧
      ∀ w, s'.world.state.objects (.ofId .ingress ⟨some "default", "web"⟩) = some w →
        ¬ (⟨some "default", "web"⟩ : ObjectId).CarriedBy w := by
  refine ⟨⟨"default/web", rfl, rfl⟩, rfl, carriedBy_webDocument, ?_⟩
  have hok : (((Cluster.reconciler stillClock .initial 0).update .ingress).perform
      renamedSession).1.isOk = true := by decide +kernel
  have hother : ((((Cluster.reconciler stillClock .initial 0).update .ingress).perform
      renamedSession).2.world.state.objects (.ofId .ingress ⟨some "default", "web"⟩)).bind
        (fun w => (resolve? ["metadata", "name"] w).bind Json.asString?) = some "other" := by
    decide +kernel
  refine ⟨_, perform_eq_of_isOk hok, fun w hw hcarried => ?_⟩
  rw [hw, Option.bind_some, hcarried.name] at hother
  exact absurd hother (by decide)

end Reconciler

end DesiredState
