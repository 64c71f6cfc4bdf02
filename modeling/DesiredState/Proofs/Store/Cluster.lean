import DesiredState.Proofs.Kind.Live
import DesiredState.Store.Cluster

/-!
Live documents in a cluster.
A cluster writes a version with every change and a status with every read of a
scaled workload. Neither is taken from a configuration, so the document stays
live and the patches stay the same.
-/
namespace DesiredState.Cluster

open Object (Reads ReadsLike)
open Json (Revised resolve?)
open Schema

variable {k : Kind} {o : Object k} {v : Json}

/-- A member is set inside the metadata of an object that has any. -/
theorem setMetadata_obj {members inner : List (String × Json)}
    (h : Entries.get? members "metadata" = some (.obj inner)) (key : String) (value : Json) :
    setMetadata key value (.obj members) =
      .obj (Entries.insert "metadata" (.obj (Entries.insert key value inner)) members) := by
  simp [setMetadata, Json.setAt, Json.setMember, Json.member?, Json.members?, h]

/-- A change makes a version that is live as before. -/
theorem readsLike_bumped (h : Reads v o) : o.ReadsLike (bumped v) := by
  obtain ⟨members, inner, rfl, hinner⟩ := h.metadata
  have hplace : k.fields.place? ["metadata", "resourceVersion"] =
      some ⟨.reported, .leaf .text⟩ := by
    cases k <;> rfl
  have hparent : resolve? ["metadata"] (.obj members) = some (.obj inner) := by
    rw [Json.resolve?_singleton, hinner]
  have hbumped : bumped (.obj members) = .obj (Entries.insert "metadata"
      (.obj (Entries.insert "resourceVersion" (.str (nextVersion (.obj members)).repr) inner))
      members) := setMetadata_obj hinner _ _
  have hrevised := (Revised.of_insert "metadata" _ members).within hparent
    (Revised.of_insert "resourceVersion" (.str (nextVersion (.obj members)).repr) inner)
  rw [← hbumped] at hrevised
  exact h.noted (by decide) hplace rfl hparent rfl hrevised

/-- A ready count as it is written, or null for none. -/
def IsCount (ready : Json) : Prop := ready = .null ∨ ∃ i : Int32, ready = .int i.toInt

/-- The status of a scaled workload is written as its counters are. -/
theorem decode_status {ready : Json} (h : IsCount ready) :
    ∃ found, (Json.obj (if ready.isNull then [("replicas", Json.int 0)]
      else Entries.insert "readyReplicas" ready [("replicas", Json.int 0)])).readUnlessNull
        (Shape.block replicaStatus).decode = some found := by
  have hlawful : replicaStatus.Lawful := by decide
  have hcounters : ∀ counters : replicaStatus.Value,
      (Json.obj (replicaStatus.encode counters)).readUnlessNull (Shape.block replicaStatus).decode =
        some (some counters) :=
    fun counters => readUnlessNull_some rfl (replicaStatus.decode_encode hlawful counters)
  rcases h with rfl | ⟨i, rfl⟩
  · exact ⟨_, hcounters (none, some (0 : Int32), none, ())⟩
  · exact ⟨_, hcounters (some i, some (0 : Int32), none, ())⟩

theorem readsLike_withStatus (h : Reads v o) (hscaled : isScaled k) {ready : Json}
    (hready : IsCount ready) : o.ReadsLike (withStatus ready v) := by
  obtain ⟨members, inner, rfl, -⟩ := h.metadata
  have hplace : k.fields.place? ["status"] = some ⟨.internal, .block replicaStatus⟩ := by
    cases k <;> first | rfl | cases hscaled
  have hparent : resolve? [] (.obj members) = some (.obj members) := rfl
  obtain ⟨found, hfound⟩ := decode_status hready
  exact h.noted (x := some _) (by decide) hplace rfl hparent hfound
    (Revised.of_insert "status" _ members)

/-- A number of replicas that was read is a count, and so is the one for none. -/
theorem isCount_getD {x : Option Json} {found : Option Int32}
    (h : (x.getD .null).readUnlessNull Json.asInt32? = some found) :
    IsCount (.int ((x.bind Json.asInt64?).getD 1)) := by
  have hone : IsCount (.int 1) := Or.inr ⟨1, rfl⟩
  cases found with
  | none =>
    cases x with
    | none => exact hone
    | some c =>
      cases c with
      | null => exact hone
      | _ => simp [Json.readUnlessNull, Json.isNull] at h
  | some i =>
    obtain ⟨c, rfl, -, hread⟩ := eq_some_of_readUnlessNull h
    obtain ⟨n, hn, hrange⟩ := Option.bind_eq_some_iff.1 hread
    split at hrange
    · rename_i hbounds
      have hint64 : c.asInt64? = some n := by
        have hwide : Int64.minValue.toInt ≤ n ∧ n ≤ Int64.maxValue.toInt :=
          ⟨Int.le_trans (by decide) hbounds.1, Int.le_trans hbounds.2 (by decide)⟩
        rw [Json.asInt64?, hn, Option.filter_some, if_pos (decide_eq_true hwide)]
      refine Or.inr ⟨Int32.ofInt n, ?_⟩
      rw [Option.bind_some, hint64, Option.getD_some, Text.toInt_ofInt_of_bounds hbounds]
    · cases hrange

theorem isCount_wantedReplicas (h : Reads v o) (hscaled : isScaled k) :
    IsCount (.int (wantedReplicas v)) := by
  have hplace : k.fields.place? ["spec", "replicas"] = some ⟨.optional, .leaf .int32⟩ := by
    cases k <;> first | rfl | cases hscaled
  obtain ⟨outer, -, rfl, -⟩ := h.metadata
  change IsCount (.int ((((Entries.get? outer "spec").bind (·.member? "replicas")).bind
    Json.asInt64?).getD 1))
  cases hspec : Entries.get? outer "spec" with
  | none => exact isCount_getD rfl
  | some spec =>
    cases spec with
    | obj members =>
      have hparent : resolve? ["spec"] (.obj outer) = some (.obj members) := by
        rw [Json.resolve?_singleton, hspec]
      obtain ⟨_, heq, hfollows⟩ :=
        Object.follows_of_decode h.decoded h.complete hplace hparent
      cases heq
      obtain ⟨found, hfound, -⟩ := hfollows.reflects
      rw [Json.resolve?_cons, hspec, Option.bind_some, Json.resolve?_singleton] at hfound
      exact isCount_getD hfound
    | _ => exact isCount_getD (x := none) rfl

/-- The ready counts that are to be reported can be read. -/
def Counted (c : Cluster) : Prop := ∀ ready ∈ c.ready, IsCount ready

/-- Only scaled workloads are shown otherwise than they are stored. -/
theorem shown_of_not_isScaled (h : isScaled k = false) (c : Cluster) (v : Json) :
    c.shown k v = (v, c) := by
  simp [shown, h]

theorem objects_shown (c : Cluster) (k : Kind) (v : Json) :
    (c.shown k v).2.objects = c.objects := by
  unfold shown
  split
  · split <;> rfl
  · rfl

theorem counted_shown {c : Cluster} (hc : c.Counted) (k : Kind) (v : Json) :
    (c.shown k v).2.Counted := by
  unfold shown
  split
  · split
    · rename_i ready rest hready
      intro other hother
      exact hc other (hready ▸ List.mem_cons_of_mem _ hother)
    · exact hc
  · exact hc

/-- Reading shows a document that is live as the stored one. -/
theorem readsLike_shown {c : Cluster} (hc : c.Counted) (h : Reads v o) :
    o.ReadsLike (c.shown k v).1 := by
  unfold shown
  split
  · rename_i hscaled
    split
    · rename_i ready rest hready
      exact readsLike_withStatus h hscaled (hc ready (by simp [hready]))
    · exact readsLike_withStatus h hscaled (isCount_wantedReplicas h hscaled)
  · exact ⟨o, h, fun _ => rfl⟩

theorem answer_get {c : Cluster} {id : ObjectId} (h : c.objects (.ofId k id) = some v) :
    store.answer (.get k id) c = (.ok (c.shown k v).1, (c.shown k v).2) := by
  simp only [store, answer, h]

theorem answer_change {c : Cluster} {id : ObjectId} (h : c.objects (.ofId k id) = some v)
    {change : Change} {w : Json} (hw : applyChange v change = .ok w) :
    store.answer (.change k id change) c = (.ok w, c.put (.ofId k id) w) := by
  simp only [store, answer, h, hw]

end DesiredState.Cluster
