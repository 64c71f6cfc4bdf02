import DesiredState.Proofs.Reconcile.Ending
import DesiredState.Proofs.Schema.Projection

/-!
What operations leave of a resource.
No operation changes the desired tree. One that succeeds with a read has seen
the object that was read last and nothing else; one that fails leaves the
resource as it was, but for a new identity and for what was seen on the way.
-/
namespace DesiredState

variable {σ : Type} {k : Kind} {before mid after : Resource} {made : List Exchange}
  {result : Except Stop Unit}

/-- The last thing done was to read the object that is seen. -/
def SeenLast (k : Kind) (made : List Exchange) (after : Resource) : Prop :=
  ∃ id v o earlier, made = ⟨.get k id, .ok v⟩ :: earlier ∧ Object.decode k v = .ok o ∧
    after.observed = o.flatten

/-- Nothing was seen before, and the first thing done was to read an object. -/
def SeenFirst {k : Kind} (before : Resource) (made : List Exchange) (o : Object k) : Prop :=
  before.seen = [] ∧ ∃ id v, made.getLast? = some ⟨.get k id, .ok v⟩ ∧ Object.decode k v = .ok o

/-- The store replied to a creation with an object of an identity. -/
def Identified (k : Kind) (made : List Exchange) (id : ObjectId) : Prop :=
  ∃ ns? object v o, ⟨.create k ns? object, .ok v⟩ ∈ made ∧ Object.decode k v = .ok o ∧
    o.id = .ok id

/-- A creation that fails changes the identity at most, to the one of the object that the store
made. So no object is made without a trace. -/
structure CreateEffect (k : Kind) (before : Resource) (result : Except Stop Unit)
    (made : List Exchange) (after : Resource) : Prop where
  desired : after.desired = before.desired
  seen : result = .ok () → SeenLast k made after
  untouched : (∀ id, ¬ Identified k made id) → after = before
  identified : ∀ id, Identified k made id → after.id? = some id.text ∧
    (result ≠ .ok () → after = before.setId (some id.text))

structure ReadEffect (k : Kind) (before : Resource) (result : Except Stop Unit)
    (made : List Exchange) (after : Resource) : Prop where
  desired : after.desired = before.desired
  id : after.id? = before.id?
  seen : result = .ok () → SeenLast k made after
  untouched : result ≠ .ok () → after = before

/-- An update that fails changes at most what is seen, and that only if nothing was seen before. -/
structure UpdateEffect (k : Kind) (before : Resource) (result : Except Stop Unit)
    (made : List Exchange) (after : Resource) : Prop where
  desired : after.desired = before.desired
  id : after.id? = before.id?
  seen : result = .ok () → SeenLast k made after
  /-- A failure keeps what the first read showed, if that was what it took to see anything. -/
  first : result ≠ .ok () → ∀ o : Object k, SeenFirst before made o → after.observed = o.flatten
  untouched : result ≠ .ok () → (∀ o : Object k, ¬ SeenFirst before made o) → after = before

structure DeleteEffect (before : Resource) (result : Except Stop Unit) (after : Resource) :
    Prop where
  desired : after.desired = before.desired
  cleared : result = .ok () → after.id? = none ∧ after.observed = .map []
  untouched : result ≠ .ok () → after = before

/-- An adoption of a malformed identity changes nothing; one that fails later keeps the desired tree
alone. -/
structure AdoptEffect (k : Kind) (text : String) (before : Resource) (result : Except Stop Unit)
    (made : List Exchange) (after : Resource) : Prop where
  desired : after.desired = before.desired
  seen : result = .ok () → SeenLast k made after
  malformed : ObjectId.ofText? k.scope text = none → after = before
  adopted : ∀ id, ObjectId.ofText? k.scope text = some id → result = .ok () →
    after.id? = some id.text
  dropped : ∀ id, ObjectId.ofText? k.scope text = some id → result ≠ .ok () →
    after = .ofDesired before.desired

/-- Taking over what a read replied with. -/
theorem refresh_entries (before : Resource) (o : Object k) :
    (before.refresh o.entries).desired = before.desired ∧
      (before.refresh o.entries).id? = before.id? ∧
      (before.refresh o.entries).observed = o.flatten :=
  ⟨before.desired_refresh _, before.id?_refresh _,
    congrArg Tree.map (before.seen_refresh (k.fields.sorted_flatten o))⟩

theorem ReadEnd.effect (h : ReadEnd k before result made after) :
    ReadEffect k before result made after := by
  cases h with
  | unrecorded => exact ⟨rfl, rfl, nofun, fun _ => rfl⟩
  | failed => exact ⟨rfl, rfl, nofun, fun _ => rfl⟩
  | unreadable => exact ⟨rfl, rfl, nofun, fun _ => rfl⟩
  | @taken id v o hid hdecode =>
    obtain ⟨hdesired, hid', hseen⟩ := refresh_entries before o
    exact ⟨hdesired, hid', fun _ => ⟨id, v, o, [], rfl, hdecode, hseen⟩,
      fun hfailed => absurd rfl hfailed⟩

/-- What was seen last is seen last whatever was done before. -/
theorem SeenLast.append (h : SeenLast k made after) (earlier : List Exchange) :
    SeenLast k (made ++ earlier) after := by
  obtain ⟨id, v, o, rest, rfl, hdecode, hseen⟩ := h
  exact ⟨id, v, o, rest ++ earlier, rfl, hdecode, hseen⟩

theorem AmendEnd.effect {id : ObjectId} (h : AmendEnd k id before result made after) :
    ReadEffect k before result made after := by
  cases h with
  | refused => exact ⟨rfl, rfl, nofun, fun _ => rfl⟩
  | unchanged hchange hread => exact hread.effect
  | failed => exact ⟨rfl, rfl, nofun, fun _ => rfl⟩
  | changed hchange hread =>
    have heffect := hread.effect
    exact { heffect with seen := fun hok => (heffect.seen hok).append _ }

theorem UpdateEnd.effect (h : UpdateEnd k before result made after) :
    UpdateEffect k before result made after := by
  cases h with
  | unrecorded =>
    refine ⟨rfl, rfl, nofun, fun _ o hfirst => ?_, fun _ _ => rfl⟩
    obtain ⟨-, id, v, hfirst, -⟩ := hfirst
    cases hfirst
  | unseen hseen hread =>
    have heffect := hread.effect
    refine ⟨heffect.desired, heffect.id, nofun, fun _ o hfirst => ?_,
      fun hfailed _ => heffect.untouched hfailed⟩
    obtain ⟨-, id, v, hfirst, hdecode⟩ := hfirst
    cases hread with
    | unrecorded => cases hfirst
    | failed => cases hfirst
    | unreadable hid hfault =>
      cases hfirst
      rw [hdecode] at hfault
      cases hfault
  | looked hid hseen hread hamend =>
    have heffect := hamend.effect
    cases hread with
    | @taken _ v o hid hdecode =>
      obtain ⟨hdesired, hid', hobserved⟩ := refresh_entries before o
      refine ⟨heffect.desired.trans hdesired, heffect.id.trans hid',
        fun hok => (heffect.seen hok).append _, fun hfailed o' hfirst => ?_,
        fun _ hnone => ?_⟩
      · obtain ⟨-, id, v', hfirst, hdecode'⟩ := hfirst
        rw [List.getLast?_concat] at hfirst
        cases hfirst
        obtain rfl : o = o' := Except.ok.inj (hdecode.symm.trans hdecode')
        rw [heffect.untouched hfailed]
        exact hobserved
      · exact absurd ⟨hseen, _, v, List.getLast?_concat, hdecode⟩ (hnone o)
  | known hid hseen hamend =>
    have heffect := hamend.effect
    exact ⟨heffect.desired, heffect.id, heffect.seen, fun _ o hfirst => absurd hfirst.1 hseen,
      fun hfailed _ => heffect.untouched hfailed⟩

theorem DeleteEnd.effect (h : DeleteEnd k before result made after) :
    DeleteEffect before result after := by
  cases h with
  | unrecorded => exact ⟨rfl, nofun, fun _ => rfl⟩
  | failed => exact ⟨rfl, nofun, fun _ => rfl⟩
  | deleted => exact ⟨rfl, fun _ => ⟨rfl, rfl⟩, fun hfailed => absurd rfl hfailed⟩

section

variable {r : Reconciler σ}

/-- Only the creation itself identifies an object. -/
theorem identified_iff (d : Object k) (v : Json) {asked : ObjectId} (hasked : Asked k asked made)
    (id : ObjectId) :
    Identified k (made ++ [⟨r.creation d, .ok v⟩]) id ↔
      ∃ o, Object.decode k v = .ok o ∧ o.id = .ok id := by
  constructor
  · rintro ⟨ns?, object, v', o, hmem, hdecode, hid⟩
    rcases List.mem_append.1 hmem with hmade | hcreation
    · rcases hasked _ hmade with hget | hwarnings
      · cases hget
      · cases hwarnings
    · have heq := List.mem_singleton.1 hcreation
      unfold Reconciler.creation at heq
      cases heq
      exact ⟨o, hdecode, hid⟩
  · rintro ⟨o, hdecode, hid⟩
    exact ⟨_, _, v, o, List.mem_append_right _ (List.mem_singleton_self _), hdecode, hid⟩

theorem TakeOverEnd.effect {settings : Settings} {d : Object k} {v : Json}
    (h : TakeOverEnd settings k before v result made after) :
    CreateEffect k before result (made ++ [⟨r.creation d, .ok v⟩]) after := by
  obtain ⟨asked, hasked⟩ := h.asked
  have hidentified := identified_iff (r := r) d v hasked
  cases h with
  | unreadable hfault =>
    refine ⟨rfl, nofun, fun _ => rfl, fun id hid => ?_⟩
    obtain ⟨o, hdecode, -⟩ := (hidentified id).1 hid
    rw [hfault] at hdecode
    cases hdecode
  | unidentified hdecode hfault =>
    refine ⟨rfl, nofun, fun _ => rfl, fun id hid => ?_⟩
    obtain ⟨o, hdecode', hid⟩ := (hidentified id).1 hid
    obtain rfl := Except.ok.inj (hdecode.symm.trans hdecode')
    rw [hfault] at hid
    cases hid
  | @unready o id _ _ hdecode hid hwait =>
    refine ⟨rfl, nofun, fun hnone => ?_, fun id' hid' => ?_⟩
    · exact absurd ((hidentified id).2 ⟨o, hdecode, hid⟩) (hnone id)
    · obtain ⟨o', hdecode', hid'⟩ := (hidentified id').1 hid'
      obtain rfl : o = o' := Except.ok.inj (hdecode.symm.trans hdecode')
      obtain rfl : id = id' := Except.ok.inj (hid.symm.trans hid')
      exact ⟨rfl, fun _ => rfl⟩
  | @awaited o id _ _ _ _ hdecode hid hwait hread =>
    have heffect := hread.effect
    refine ⟨heffect.desired, fun hok => ?_, fun hnone => ?_, fun id' hid' => ?_⟩
    · exact ((heffect.seen hok).append _).append _
    · exact absurd ((hidentified id).2 ⟨o, hdecode, hid⟩) (hnone id)
    · obtain ⟨o', hdecode', hid'⟩ := (hidentified id').1 hid'
      obtain rfl : o = o' := Except.ok.inj (hdecode.symm.trans hdecode')
      obtain rfl : id = id' := Except.ok.inj (hid.symm.trans hid')
      exact ⟨heffect.id, heffect.untouched⟩

theorem CreateEnd.effect (h : CreateEnd r k before result made after) :
    CreateEffect k before result made after := by
  cases h with
  | malformed =>
    refine ⟨rfl, nofun, fun _ => rfl, fun id hid => ?_⟩
    obtain ⟨_, _, _, _, hmem, -⟩ := hid
    cases hmem
  | failed =>
    refine ⟨rfl, nofun, fun _ => rfl, fun id hid => ?_⟩
    obtain ⟨_, _, _, _, hmem, -⟩ := hid
    have heq := List.mem_singleton.1 hmem
    unfold Reconciler.creation at heq
    cases heq
  | made hexpand htaken => exact htaken.effect

end

namespace Reconciler

open Operation

variable (r : Reconciler σ)

theorem effect_adopt (k : Kind) (before : Resource) (text : String) :
    (r.chronicled.adopt k text).Ensures before (AdoptEffect k text before) := by
  refine ensures_require_bind (fun id hid => ?_) fun e he => ?_
  · have hread : ObjectId.ofText? k.scope text = some id := ObjectId.decode_eq_ok.1 hid
    have hwell : ObjectId.ofText? k.scope text ≠ none := by simp [hread]
    have hsame : ∀ other, ObjectId.ofText? k.scope text = some other → other = id := by
      intro other hother
      exact Option.some.inj (hother.symm.trans hread)
    refine ensures_keep_bind ?_
    refine ensures_tryCatch (ensures_read r k _) (fun _ made after hend => ?_)
      fun stop made mid hend => ?_
    · have heffect := hend.effect
      refine ⟨heffect.desired, heffect.seen, fun hnone => absurd hnone hwell, ?_,
        fun _ _ hfailed => absurd rfl hfailed⟩
      intro other hother _
      rw [hsame other hother]
      exact heffect.id
    · have hmid : mid = before.setId (some id.text) := hend.effect.untouched nofun
      rw [hmid]
      refine ensures_keep_bind fun world => ⟨[], rfl, ?_⟩
      exact ⟨rfl, nofun, fun hnone => absurd hnone hwell, fun _ _ => nofun, fun _ _ _ => rfl⟩
  · have hnone : ObjectId.ofText? k.scope text = none := (ObjectId.decode_eq_error.1 he).1
    exact ⟨rfl, nofun, fun _ => rfl, fun _ _ => nofun, fun id hid => by
      rw [hnone] at hid
      cases hid⟩

/-- What each operation does to a resource, whatever was seen before and whatever the store replies
with. -/
theorem operations_effects (k : Kind) (before : Resource) :
    (r.chronicled.create k).Ensures before (CreateEffect k before) ∧
    (r.chronicled.read k).Ensures before (ReadEffect k before) ∧
    (r.chronicled.update k).Ensures before (UpdateEffect k before) ∧
    (r.chronicled.delete k).Ensures before (fun result _ after =>
      DeleteEffect before result after) ∧
    (r.chronicled.probe k).Ensures before (fun _ _ after => after = before) ∧
    ∀ text, (r.chronicled.adopt k text).Ensures before (AdoptEffect k text before) := by
  refine ⟨?_, ?_, ?_, ?_, ?_, effect_adopt r k before⟩
  · exact (ends_create r k before).mono fun _ _ _ h => h.effect
  · exact (ensures_read r k before).mono fun _ _ _ h => h.effect
  · exact (ends_update r k before).mono fun _ _ _ h => h.effect
  · exact (ends_delete r k before).mono fun _ _ _ h => h.effect
  · exact (ends_probe r k before).mono fun _ _ _ h => h.1

end Reconciler

end DesiredState
