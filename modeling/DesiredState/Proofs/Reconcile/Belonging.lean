import DesiredState.Proofs.Reconcile.Ending
import DesiredState.Proofs.Schema.Projection

/-!
What was seen belongs to the recorded identity.
Whatever is seen of a resource was read for the identity that is recorded, along
every run in which no creation fails after it recorded another identity. Such a
creation is the one way to keep what was seen of one object under the identity
of another.
-/
namespace DesiredState

variable {σ α : Type}

/-- The store answered a read for the recorded identity with the object that is seen. -/
def Resource.Shows (r : Resource) (exchanges : List Exchange) : Prop :=
  ∃ k id v o, r.Records k id ∧ ⟨.get k id, .ok v⟩ ∈ exchanges ∧ Object.decode k v = .ok o ∧
    r.observed = o.flatten

/-- What is seen, if anything is, belongs to the recorded identity. -/
def Session.Belongs (s : Session (Chronicle σ)) : Prop :=
  s.resource.seen ≠ [] → s.resource.Shows s.world.exchanges

/-- How a resource may follow another when exchanges are made. -/
inductive Follows (before : Resource) (made : List Exchange) (after : Resource) : Prop where
  | kept (hid : after.id? = before.id?) (hseen : after.seen = before.seen)
  | cleared (hseen : after.seen = [])
  | shown (hshows : after.Shows made)

section

variable {before mid after : Resource} {made later : List Exchange}

theorem Resource.Shows.congr (h : before.Shows made) (hid : after.id? = before.id?)
    (hseen : after.seen = before.seen) (hmade : ∀ x ∈ made, x ∈ later) : after.Shows later := by
  obtain ⟨k, id, v, o, ⟨text, htext, hdecode⟩, hmem, ho, hobserved⟩ := h
  refine ⟨k, id, v, o, ⟨text, hid.trans htext, hdecode⟩, hmade _ hmem, ho, ?_⟩
  rw [← hobserved]
  exact congrArg Tree.map hseen

theorem Follows.refl (before : Resource) : Follows before made before := .kept rfl rfl

theorem Follows.mono (h : Follows before made after) (hmade : ∀ x ∈ made, x ∈ later) :
    Follows before later after := by
  cases h with
  | kept hid hseen => exact .kept hid hseen
  | cleared hseen => exact .cleared hseen
  | shown hshows => exact .shown (hshows.congr rfl rfl hmade)

theorem Follows.trans (h : Follows before made mid) (hlater : Follows mid later after) :
    Follows before (later ++ made) after := by
  cases hlater with
  | kept hid hseen =>
    cases h with
    | kept hid' hseen' => exact .kept (hid.trans hid') (hseen.trans hseen')
    | cleared hseen' => exact .cleared (hseen.trans hseen')
    | shown hshows => exact .shown (hshows.congr hid hseen fun _ => List.mem_append_right _)
  | cleared hseen => exact .cleared hseen
  | shown hshows => exact .shown (hshows.congr rfl rfl fun _ => List.mem_append_left _)

variable {k : Kind} {result : Except Stop Unit}

/-- A read that is taken over shows what is seen from then on. -/
theorem shows_refresh {id : ObjectId} {v : Json} {o : Object k} (hid : before.Records k id)
    (hdecode : Object.decode k v = .ok o) :
    (before.refresh o.entries).Shows [⟨.get k id, .ok v⟩] := by
  obtain ⟨text, htext, hid⟩ := hid
  have hrecords : (before.refresh o.entries).Records k id :=
    ⟨text, (before.id?_refresh _).trans htext, hid⟩
  refine ⟨k, id, v, o, hrecords, List.mem_singleton_self _, hdecode, ?_⟩
  exact congrArg Tree.map (before.seen_refresh (k.fields.sorted_flatten o))

theorem ReadEnd.follows (h : ReadEnd k before result made after) : Follows before made after := by
  cases h with
  | unrecorded => exact .refl before
  | failed => exact .refl before
  | unreadable => exact .refl before
  | taken hid hdecode => exact .shown (shows_refresh hid hdecode)

theorem AdoptEnd.follows (h : AdoptEnd k before result made after) :
    Follows before made after := by
  cases h with
  | malformed => exact .refl before
  | dropped => exact .cleared rfl
  | adopted hread =>
    cases hread with
    | taken hid hdecode => exact .shown (shows_refresh hid hdecode)

/-- Taking over a new object leaves what was seen before it unless the object is read. -/
theorem TakeOverEnd.follows {settings : Settings} {v : Json}
    (h : TakeOverEnd settings k before v result made after) :
    Follows before made after ∨ result ≠ .ok () ∧ after.seen = before.seen := by
  cases h with
  | unreadable => exact .inl (.refl before)
  | unidentified => exact .inl (.refl before)
  | unready => exact .inr ⟨nofun, rfl⟩
  | awaited _ _ _ hread =>
    cases hread with
    | taken hid hdecode =>
      exact .inl (.shown ((shows_refresh hid hdecode).congr rfl rfl
        fun _ => List.mem_append_left _))
    | unrecorded => exact .inr ⟨nofun, rfl⟩
    | failed => exact .inr ⟨nofun, rfl⟩
    | unreadable => exact .inr ⟨nofun, rfl⟩

theorem CreateEnd.follows {r : Reconciler σ} (h : CreateEnd r k before result made after) :
    Follows before made after ∨ result ≠ .ok () ∧ after.seen = before.seen := by
  cases h with
  | malformed => exact .inl (.refl before)
  | failed => exact .inl (.refl before)
  | made _ htaken =>
    exact htaken.follows.imp_left fun hfollows => hfollows.mono fun _ => List.mem_append_left _

theorem AmendEnd.follows {id : ObjectId} (h : AmendEnd k id before result made after) :
    Follows before made after := by
  cases h with
  | refused => exact .refl before
  | unchanged _ hread => exact hread.follows
  | failed => exact .refl before
  | changed _ hread => exact hread.follows.mono fun _ => List.mem_append_left _

theorem UpdateEnd.follows (h : UpdateEnd k before result made after) :
    Follows before made after := by
  cases h with
  | unrecorded => exact .refl before
  | unseen _ hread => exact hread.follows
  | looked _ _ hread hamend => exact hread.follows.trans hamend.follows
  | known _ _ hamend => exact hamend.follows

theorem DeleteEnd.follows (h : DeleteEnd k before result made after) :
    Follows before made after := by
  cases h with
  | unrecorded => exact .refl before
  | failed => exact .refl before
  | deleted => exact .cleared rfl

end

namespace Reconciler

open Operation

variable (r : Reconciler σ) (before : Resource)

/-- Only a creation that fails can leave a resource that does not follow the one before it, and
what was seen stays then. -/
theorem follows_act (c : Command) :
    (r.chronicled.act c).Ensures before fun result made after =>
      Follows before made after ∨
        (∃ k, c = .create k) ∧ result ≠ .ok () ∧ after.seen = before.seen := by
  cases c with
  | setDesired desired => exact fun _ => ⟨[], rfl, .inl (.kept rfl rfl)⟩
  | commit => exact fun _ => ⟨[], rfl, .inl (.kept rfl rfl)⟩
  | create k =>
    refine (ends_create r k before).mono fun _ _ _ h => ?_
    exact h.follows.imp_right fun hfailed => ⟨⟨k, rfl⟩, hfailed⟩
  | read k => exact (ensures_read r k before).mono fun _ _ _ h => .inl h.follows
  | update k => exact (ends_update r k before).mono fun _ _ _ h => .inl h.follows
  | delete k => exact (ends_delete r k before).mono fun _ _ _ h => .inl h.follows
  | probe k =>
    refine (ends_probe r k before).bind (fun found made mid h => ?_) ?_
    · obtain ⟨rfl, -⟩ := h
      exact ensures_pure (.inl (.refl mid))
    · rintro stop made after ⟨rfl, -⟩
      exact .inl (.refl after)
  | adopt k text => exact (ensures_adopt r k before text).mono fun _ _ _ h => .inl h.follows

/-- The sessions that commands lead to, while the state of the store may also change otherwise. -/
inductive Reachable (allowed : Session (Chronicle σ) → Command → Prop) :
    Session (Chronicle σ) → Prop where
  | start (resource : Resource) (state : σ) (hseen : resource.seen = []) :
      Reachable allowed ⟨resource, ⟨state, []⟩⟩
  | act {s : Session (Chronicle σ)} (c : Command) (hs : Reachable allowed s)
      (hallowed : allowed s c) : Reachable allowed ((r.chronicled.act c).perform s).2
  | elsewhere {s : Session (Chronicle σ)} (state : σ) (hs : Reachable allowed s) :
      Reachable allowed { s with world := { s.world with state } }

/-- A creation starts from a resource of which nothing is seen, or succeeds, or records the
identity that was recorded before. -/
def Careful (s : Session (Chronicle σ)) (c : Command) : Prop :=
  (∃ k, c = .create k) → s.resource.seen = [] ∨ ((r.chronicled.act c).perform s).1 = .ok () ∨
    ((r.chronicled.act c).perform s).2.resource.id? = s.resource.id?

variable {r} {s : Session (Chronicle σ)}

theorem belongs_act {c : Command} (hs : s.Belongs) (hcareful : r.Careful s c) :
    ((r.chronicled.act c).perform s).2.Belongs := by
  obtain ⟨made, hmade, hend⟩ := follows_act r s.resource c s.world
  have hfollows : Follows s.resource made ((r.chronicled.act c).perform s).2.resource := by
    rcases hend with hfollows | ⟨hcreate, hfailed, hseen⟩
    · exact hfollows
    · rcases hcareful hcreate with hnil | hok | hid
      · exact .cleared (hseen.trans hnil)
      · exact absurd hok hfailed
      · exact .kept hid hseen
  intro hsome
  rw [hmade]
  cases hfollows with
  | kept hid hseen =>
    have hshows : s.resource.Shows s.world.exchanges := hs (by rwa [hseen] at hsome)
    exact hshows.congr hid hseen fun _ => List.mem_append_right _
  | cleared hseen => exact absurd hseen hsome
  | shown hshows => exact hshows.congr rfl rfl fun _ => List.mem_append_left _

/-- Along every run with careful creations, what is seen was read for the identity that is
recorded. -/
theorem belongs_of_reachable (hs : r.Reachable r.Careful s) : s.Belongs := by
  induction hs with
  | start resource state hseen => exact fun hsome => absurd hseen hsome
  | act c _ hcareful ih => exact belongs_act ih hcareful
  | elsewhere state _ ih => exact ih

/-- A role of a name that is to be. -/
def wantedRole (name : String) : Tree := .map [("metadata", .block [("name", .str name)])]

/-- The session after a role was made, and then another that could not be read. -/
def mixedUp : Session (Chronicle Rehearsal) :=
  let r := Rehearsal.reconciler.chronicled
  let made := ((r.act (.create .role)).perform
    ⟨.ofDesired (wantedRole "a"), ⟨.initial, []⟩⟩).2
  let wanted := ((r.act (.setDesired (wantedRole "b"))).perform made).2
  let failing := { wanted with world := { wanted.world with
    state := wanted.world.state.setFault .get (some 500) } }
  ((r.act (.create .role)).perform failing).2

theorem belongs_created :
    ∃ s, Rehearsal.reconciler.Reachable Rehearsal.reconciler.Careful s ∧ s.resource.seen ≠ [] ∧
      s.resource.Shows s.world.exchanges := by
  have hstart : Rehearsal.reconciler.Reachable Rehearsal.reconciler.Careful
      ⟨.ofDesired (wantedRole "a"), ⟨.initial, []⟩⟩ := .start _ _ rfl
  have hmade := hstart.act (.create .role) fun _ => .inl rfl
  have hseen : ((Rehearsal.reconciler.chronicled.act (.create .role)).perform
      ⟨.ofDesired (wantedRole "a"), ⟨.initial, []⟩⟩).2.resource.seen ≠ [] := by
    intro h
    cases h
  exact ⟨_, hmade, hseen, belongs_of_reachable hmade hseen⟩

/-- Without care the state of one object can be kept under the identity of another. -/
theorem not_belongs_mixedUp :
    Rehearsal.reconciler.Reachable (fun _ _ => True) mixedUp ∧ ¬ mixedUp.Belongs := by
  refine ⟨?_, ?_⟩
  · have hstart : Rehearsal.reconciler.Reachable (fun _ _ => True)
        ⟨.ofDesired (wantedRole "a"), ⟨.initial, []⟩⟩ := .start _ _ rfl
    have hmade := hstart.act (.create .role) trivial
    have hwanted := hmade.act (.setDesired (wantedRole "b")) trivial
    exact (hwanted.elsewhere _).act (.create .role) trivial
  · intro hbelongs
    have hseen : mixedUp.resource.seen ≠ [] := by
      intro h
      cases h
    obtain ⟨k, id, v, o, ⟨text, htext, hid⟩, hmem, -, -⟩ := hbelongs hseen
    have hexchanges : mixedUp.world.exchanges =
        [⟨.get .role ⟨some "default", "b"⟩, .error _⟩,
          ⟨.create .role (some "default") _, .ok _⟩,
          ⟨.get .role ⟨some "default", "a"⟩, .ok _⟩,
          ⟨.create .role (some "default") _, .ok _⟩] := rfl
    have htext : some "default/b" = some text := htext
    cases htext
    rw [hexchanges] at hmem
    -- Only the earlier read was answered with an object, and it was for the other role.
    rcases List.mem_cons.1 hmem with h | hmem
    · cases h
    · rcases List.mem_cons.1 hmem with h | hmem
      · cases h
      · rcases List.mem_cons.1 hmem with h | hmem
        · cases h
          have hdecode : ObjectId.decode .namespaced "default/b" = .ok ⟨some "default", "b"⟩ := rfl
          have hname : (⟨some "default", "b"⟩ : ObjectId) = ⟨some "default", "a"⟩ :=
            Except.ok.inj (hdecode.symm.trans hid)
          exact absurd hname (by decide)
        · cases List.mem_singleton.1 hmem

end Reconciler

end DesiredState
