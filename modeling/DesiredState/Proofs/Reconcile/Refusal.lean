import DesiredState.Proofs.Reconcile.Waiting

/-!
Refusals come before writes.
An operation that is refused has sent reads at most, unless the store refused a
request or made an object without an identity that can be recorded. Until a
write is sent any fault may stop an operation; from then on none of its own is
a refusal.
-/
namespace DesiredState

variable {σ α : Type}

/-- An object that has an identity with a text that is read back as this identity. -/
def Object.Recordable {k : Kind} (o : Object k) : Prop :=
  ∃ id, o.id = .ok id ∧ ObjectId.decode k.scope id.text = .ok id

/-- The store leaves refusals to its callers, and the objects it makes can be recorded. -/
structure Exchange.Regular (x : Exchange) : Prop where
  unrefused : ¬ x.Refuses
  recordable : ∀ k ns? object v o, x = ⟨.create k ns? object, .ok v⟩ →
    Object.decode k v = .ok o → o.Recordable

/-- A refusal shows that some exchange was not regular. -/
def Excused (result : Except Stop α) (made : List Exchange) : Prop :=
  Refused result → ∃ x ∈ made, ¬ x.Regular

/-- A refusal shows that nothing was written or some exchange was not regular. -/
def Checked (result : Except Stop α) (made : List Exchange) : Prop :=
  Refused result → OnlyReads made ∨ ∃ x ∈ made, ¬ x.Regular

section

variable {result : Except Stop α} {made later : List Exchange}

theorem Excused.checked (h : Excused result made) : Checked result made :=
  fun hrefused => .inr (h hrefused)

theorem OnlyReads.checked (h : OnlyReads made) : Checked result made :=
  fun _ => .inl h

theorem Excused.append (h : Excused result later) (made : List Exchange) :
    Excused result (later ++ made) := by
  intro hrefused
  obtain ⟨x, hx, hirregular⟩ := h hrefused
  exact ⟨x, List.mem_append_left _ hx, hirregular⟩

theorem Checked.append (h : Checked result later) (hmade : OnlyReads made) :
    Checked result (later ++ made) := by
  intro hrefused
  rcases h hrefused with hlater | ⟨x, hx, hirregular⟩
  · exact .inl (hlater.append hmade)
  · exact .inr ⟨x, List.mem_append_left _ hx, hirregular⟩

theorem excused_of_not_refused (h : ¬ Refused result) : Excused result made :=
  fun hrefused => absurd hrefused h

theorem Looks.excused (h : Looks result made) : Excused result made := by
  intro hrefused
  obtain ⟨x, hx, hrefuses⟩ := h.refused hrefused
  exact ⟨x, hx, fun hregular => hregular.unrefused hrefuses⟩

/-- A failing request stops an operation with the error that the store replied with. -/
theorem excused_of_failed {request : Request} {e : Error} :
    Excused (.error (.fault e) : Except Stop α) [⟨request, .error e⟩] := by
  intro hrefused
  refine ⟨_, List.mem_singleton_self _, fun hregular => hregular.unrefused ?_⟩
  exact ⟨e, rfl, refused_error_iff.1 hrefused⟩

end

section

variable {k : Kind} {before after : Resource} {result : Except Stop Unit} {made : List Exchange}

theorem ReadEnd.onlyReads (h : ReadEnd k before result made after) : OnlyReads made := by
  cases h with
  | unrecorded => exact onlyReads_nil
  | failed => exact onlyReads_get k _ _
  | unreadable => exact onlyReads_get k _ _
  | taken => exact onlyReads_get k _ _

/-- Once an identity is recorded, reading does not refuse. -/
theorem ReadEnd.excused {id : ObjectId} (hid : before.Records k id)
    (h : ReadEnd k before result made after) : Excused result made := by
  cases h with
  | unrecorded _ hnone => exact absurd hid (hnone id)
  | failed => exact excused_of_failed
  | unreadable _ hdecode =>
    exact excused_of_not_refused (not_refused_error (Object.isRefusal_of_decode hdecode))
  | taken => exact excused_of_not_refused (not_refused_ok ())

theorem AdoptEnd.onlyReads (h : AdoptEnd k before result made after) : OnlyReads made := by
  cases h with
  | malformed => exact onlyReads_nil
  | dropped hread => exact hread.onlyReads
  | adopted hread => exact hread.onlyReads

theorem ReadEnd.records {id : ObjectId} (hid : before.Records k id)
    (h : ReadEnd k before result made after) : after.Records k id := by
  obtain ⟨text, htext, hdecode⟩ := hid
  cases h with
  | taken => exact ⟨text, (before.id?_refresh _).trans htext, hdecode⟩
  | _ => exact ⟨text, htext, hdecode⟩

/-- Taking over a new object refuses only what cannot be recorded. -/
theorem TakeOverEnd.excused {settings : Settings} {v : Json}
    (h : TakeOverEnd settings k before v result made after)
    (hrecordable : ∀ o, Object.decode k v = .ok o → o.Recordable) : Excused result made := by
  cases h with
  | unreadable hdecode =>
    exact excused_of_not_refused (not_refused_error (Object.isRefusal_of_decode hdecode))
  | unidentified hdecode hfault =>
    obtain ⟨id, hid, -⟩ := hrecordable _ hdecode
    rw [hfault] at hid
    cases hid
  | unready hdecode hid hwait => exact hwait.looks.excused
  | @awaited o id waited _ _ _ hdecode hid hwait hread =>
    obtain ⟨id', hid', hrecorded⟩ := hrecordable o hdecode
    obtain rfl : id' = id := Except.ok.inj (hid'.symm.trans hid)
    have hrecords : (before.setId (some id'.text)).Records k id' := ⟨_, rfl, hrecorded⟩
    exact (hread.excused hrecords).append waited

theorem CreateEnd.checked {r : Reconciler σ} (h : CreateEnd r k before result made after) :
    Checked result made := by
  cases h with
  | malformed => exact onlyReads_nil.checked
  | failed => exact excused_of_failed.checked
  | @made d v _ _ _ hexpand htaken =>
    by_cases hrecordable : ∀ o, Object.decode k v = .ok o → o.Recordable
    · exact ((htaken.excused hrecordable).append _).checked
    · intro _
      refine .inr ⟨_, List.mem_append_right _ (List.mem_singleton_self _), fun hregular => ?_⟩
      exact hrecordable fun o ho => hregular.recordable k _ _ v o rfl ho

theorem AmendEnd.checked {id : ObjectId} (hid : before.Records k id)
    (h : AmendEnd k id before result made after) : Checked result made := by
  cases h with
  | refused => exact onlyReads_nil.checked
  | unchanged _ hread => exact hread.onlyReads.checked
  | failed => exact excused_of_failed.checked
  | changed _ hread => exact ((hread.excused hid).append _).checked

theorem UpdateEnd.checked (h : UpdateEnd k before result made after) : Checked result made := by
  cases h with
  | unrecorded => exact onlyReads_nil.checked
  | unseen _ hread => exact hread.onlyReads.checked
  | looked hid _ hread hamend => exact (hamend.checked (hread.records hid)).append hread.onlyReads
  | known hid _ hamend => exact hamend.checked hid

theorem DeleteEnd.checked (h : DeleteEnd k before result made after) : Checked result made := by
  cases h with
  | unrecorded => exact onlyReads_nil.checked
  | failed => exact excused_of_failed.checked
  | deleted => exact (excused_of_not_refused (not_refused_ok ())).checked

end

namespace Reconciler

open Operation

variable (r : Reconciler σ) (before : Resource)

/-- Of all that is done to a resource, what is refused was checked first. -/
theorem checked_act (c : Command) :
    (r.chronicled.act c).Ensures before fun result made _ => Checked result made := by
  cases c with
  | setDesired desired => exact fun _ => ⟨[], rfl, onlyReads_nil.checked⟩
  | commit => exact fun _ => ⟨[], rfl, onlyReads_nil.checked⟩
  | create k => exact (ends_create r k before).mono fun _ _ _ h => h.checked
  | read k => exact (ensures_read r k before).mono fun _ _ _ h => h.onlyReads.checked
  | update k => exact (ends_update r k before).mono fun _ _ _ h => h.checked
  | delete k => exact (ends_delete r k before).mono fun _ _ _ h => h.checked
  | probe k =>
    refine (ends_probe r k before).bind ?_ fun _ _ _ h => h.2.onlyReads.checked
    exact fun _ _ _ h => ensures_pure h.2.onlyReads.checked
  | adopt k text => exact (ensures_adopt r k before text).mono fun _ _ _ h => h.onlyReads.checked

variable {r} in
/-- What a command is refused for was found before anything was written, if the store leaves
refusals to its callers and makes objects with identities that can be recorded. -/
theorem onlyReads_of_refused (c : Command) (resource : Resource) (state : σ)
    (hrefused : Refused (r.account c resource state).1)
    (hregular : ∀ x ∈ (r.account c resource state).2.world.exchanges, x.Regular) :
    OnlyReads (r.account c resource state).2.world.exchanges := by
  obtain ⟨made, hmade, hchecked⟩ := checked_act r resource c ⟨state, []⟩
  have hall : (r.account c resource state).2.world.exchanges = made :=
    hmade.trans (List.append_nil made)
  rw [hall] at hregular ⊢
  rcases hchecked hrefused with hreads | ⟨x, hx, hirregular⟩
  · exact hreads
  · exact absurd (hregular x hx) hirregular

def readersDocument : Json :=
  .obj [("metadata", .obj [("name", .str "readers"), ("namespace", .str "default")]),
    ("roleRef", .obj [("apiGroup", .str "rbac.authorization.k8s.io"), ("kind", .str "Role"),
      ("name", .str "reader")])]

/-- The binding is recorded and is to bind another role. -/
def rebound : Resource :=
  (Resource.ofId "default/readers").setDesired
    (.map [("metadata", .block [("name", .str "readers")]),
      ("role_ref", .block [("kind", .str "Role"), ("name", .str "writer")])])

/-- A cluster in which there is one binding. -/
def bound : Rehearsal :=
  { Rehearsal.initial with
    cluster := Cluster.empty.put ⟨.roleBinding, some "default", "readers"⟩ readersDocument }

theorem onlyReads_of_refused_rebound :
    Refused (Rehearsal.reconciler.account (.update .roleBinding) rebound bound).1 ∧
    OnlyReads (Rehearsal.reconciler.account (.update .roleBinding) rebound
      bound).2.world.exchanges := by
  have hrefused : Refused
      (Rehearsal.reconciler.account (.update .roleBinding) rebound bound).1 :=
    ⟨.forceNew "RoleBinding" ["role_ref"], rfl, rfl⟩
  refine ⟨hrefused, onlyReads_of_refused (.update .roleBinding) rebound bound hrefused ?_⟩
  intro x hx
  have hget : x = ⟨.get .roleBinding ⟨some "default", "readers"⟩, .ok readersDocument⟩ :=
    List.mem_singleton.1 hx
  rw [hget]
  refine ⟨?_, ?_⟩
  · rintro ⟨e, he, -⟩
    cases he
  · intro k ns? object v o hcreate
    cases congrArg Exchange.request hcreate

/-- A role with a name that its identity cannot be read back from. -/
def slashedRole : Resource :=
  .ofDesired (.map [("metadata", .block [("name", .str "a/b")])])

/-- The role is made, and then the creation is refused. -/
theorem refused_after_write :
    Refused (Rehearsal.reconciler.account (.create .role) slashedRole .initial).1 ∧
    ¬ OnlyReads (Rehearsal.reconciler.account (.create .role) slashedRole
      .initial).2.world.exchanges := by
  refine ⟨⟨.validation (.malformedId "default/a/b" .namespaced), rfl, rfl⟩, fun hreads => ?_⟩
  have hwrite := hreads _ List.mem_cons_self
  cases hwrite

end Reconciler

end DesiredState
