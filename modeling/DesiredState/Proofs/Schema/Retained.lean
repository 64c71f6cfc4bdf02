import DesiredState.Proofs.Json.Containment
import DesiredState.Proofs.Schema.Merged
import Mathlib.Tactic.ByContra

/-!
What merging makes of the values at a place.
If all of the first value is retained in the second one, then the second one is
what an expanded object has afterwards. Whatever the first value holds besides,
the second one is contained in the result. A path that leads to a field leads to
the merged values of the field.
-/
namespace DesiredState.Schema

open Json (resolve?)

theorem TextMap.merged_of_retained {x y : TextMap}
    (h : (Leaf.encode .textMap x).retainedIn (Leaf.encode .textMap y) = true) :
    x.merged y = y := by
  refine TextMap.ext_get? fun key => ?_
  rw [TextMap.get?_merged]
  cases hy : Entries.get? y.entries key with
  | some _ => rfl
  | none =>
    cases hx : Entries.get? x.entries key with
    | none => rfl
    | some s =>
      have hkept := (Json.membersRetainedIn_iff (Entries.sorted_map Json.str x.sorted)).1 h key
        (.str s) (by rw [Entries.get?_map, hx]; rfl)
      obtain ⟨change, hchange, -⟩ := hkept
      rw [Entries.get?_map, hy] at hchange
      cases hchange

/-- A port that would keep a number under its new name is not retained in it. -/
theorem ServicePort.configured?_merged {x y : ServicePort} (hy : y.configured? = some y)
    (h : ∀ z, x.configured? = some z → z.encode.retainedIn y.encode = true) :
    (x.merged y).configured? = some y := by
  obtain ⟨number?, name?⟩ := x
  obtain ⟨newNumber?, newName?⟩ := y
  cases newNumber? with
  | some i => exact hy
  | none =>
    cases newName? with
    | none => cases hy
    | some s =>
      cases number? with
      | none => exact hy
      | some i =>
        have hkept := h ⟨some i, none⟩ rfl
        simp [encode, Entries.insert?, Entries.insert, Json.retainedIn, Json.membersRetainedIn,
          Entries.get?] at hkept

theorem Service.port_of_retained {x y : Service} (h : x.encode.retainedIn y.encode = true)
    {p : ServicePort} (hp : x.port? = some p) :
    ∃ q, y.port? = some q ∧ p.encode.retainedIn q.encode = true := by
  obtain ⟨members, hmembers, -, hport⟩ := x.exists_members
  obtain ⟨changes, hchanges, -, hnewPort⟩ := y.exists_members
  have hsorted : Entries.Sorted members := (hmembers ▸ x.wellFormed_encode).1
  rw [hmembers, hchanges, Json.retainedIn] at h
  obtain ⟨change, hchange, hkept⟩ := (Json.membersRetainedIn_iff hsorted).1 h "port" p.encode (by
    rw [hport, hp]
    rfl)
  rw [hnewPort] at hchange
  obtain ⟨q, hq, rfl⟩ := Option.map_eq_some_iff.1 hchange
  exact ⟨q, hq, hkept⟩

theorem Service.configured_merged {x y : Service} (hy : y.configured = y)
    (h : x.configured.encode.retainedIn y.encode = true) : (x.merged y).configured = y := by
  obtain ⟨name, port?⟩ := y
  have hport : port?.bind ServicePort.configured? = port? := congrArg Service.port? hy
  suffices hmerged : (x.port?.merge ServicePort.merged port?).bind ServicePort.configured? =
      port? by
    simp only [merged, configured, hmerged]
  cases hx : x.port? with
  | none => cases port? <;> exact hport
  | some p =>
    have hkept : ∀ z, p.configured? = some z →
        ∃ q, port? = some q ∧ z.encode.retainedIn q.encode = true :=
      fun z hz => Service.port_of_retained h (by simp only [configured, hx, Option.bind_some, hz])
    cases port? with
    | none =>
      cases hp : p.configured? with
      | none => exact hp
      | some z =>
        obtain ⟨q, hq, -⟩ := hkept z hp
        cases hq
    | some q =>
      refine ServicePort.configured?_merged hport fun z hz => ?_
      obtain ⟨q', hq', hz⟩ := hkept z hz
      cases hq'
      exact hz

theorem Backend.configured_merged {x y : Backend} (hy : y.configured = y)
    (h : x.configured.encode.retainedIn y.encode = true) : (x.merged y).configured = y := by
  obtain ⟨service?⟩ := x
  obtain ⟨newService?⟩ := y
  cases service? with
  | none => cases newService? <;> exact hy
  | some s =>
    cases newService? with
    | none =>
      simp [configured, encode, Entries.insert?, Entries.insert, Json.retainedIn,
        Json.membersRetainedIn] at h
    | some t =>
      have hservice : t.configured = t := by simpa [configured] using hy
      have hkept : s.configured.encode.retainedIn t.encode = true := by
        simpa [configured, encode, Entries.insert?, Entries.insert, Json.retainedIn,
          Json.membersRetainedIn, Entries.get?] using h
      simp [configured, merged, Service.configured_merged hservice hkept]

theorem Fields.sorted_written (fields : Fields) (v : fields.Value) :
    Entries.Sorted (fields.written v) :=
  (fields.wellFormed_encode _).1

theorem Fields.mem_members_of_get?_written (fields : Fields) {v : fields.Value} {key : String}
    {c : Json} (h : Entries.get? (fields.written v) key = some c) : key ∈ fields.members := by
  by_contra hmem
  have hnone : Entries.get? (fields.written v) key = none := fields.get?_encode_of_not_mem _ hmem
  rw [hnone] at h
  cases h

/-- What nothing is dropped from becomes just what was asked for. -/
theorem Presence.configured_merged {p : Presence} {s : Shape}
    (hs : ∀ x y, s.configured y = y →
      (s.encode (s.configured x)).retainedIn (s.encode y) = true →
      s.configured (s.merged x y) = y)
    {x y : p.Held s.Value} (hy : p.configured s.configured y = y)
    (h : ∀ v, Place.written ⟨p, s⟩ x = some v →
      ∃ change, (p.sent y).map s.encode = some change ∧ v.retainedIn change = true) :
    p.configured s.configured (p.merged s.merged x y) = y := by
  cases p with
  | required | defaulted =>
    obtain ⟨change, hchange, hkept⟩ := h _ rfl
    obtain rfl := Option.some.inj hchange
    exact hs x y hy hkept
  | optional | expected =>
    cases x with
    | none => cases y <;> exact hy
    | some x =>
      obtain ⟨change, hchange, hkept⟩ := h _ rfl
      obtain ⟨y, rfl, rfl⟩ := Option.map_eq_some_iff.1 hchange
      exact congrArg some (hs x y (Option.some.inj hy) hkept)
  | reported | internal => exact hy

mutual

theorem Shape.configured_merged : (s : Shape) → s.Lawful → {x y : s.Value} →
    s.configured y = y → (s.encode (s.configured x)).retainedIn (s.encode y) = true →
    s.configured (s.merged x y) = y
  | .leaf l, _, x, y, hy, h => by
    cases l with
    | textMap => exact TextMap.merged_of_retained h
    | _ => exact hy
  | .block fields, hs, _, _, hy, h => by
    rw [Shape.encode, Shape.encode, Json.retainedIn] at h
    exact fields.configured_merged hs hy h
  | .blocks _, _, _, _, hy, _ => hy
  | .backend, _, _, _, hy, h => Backend.configured_merged hy h

theorem Fields.configured_merged : (fields : Fields) → fields.Lawful → {v w : fields.Value} →
    fields.configured w = w →
    Json.membersRetainedIn (fields.written v) (fields.encode w) = true →
    fields.configured (fields.merged v w) = w
  | .nil, _, _, _, _, _ => rfl
  | .typed apiVersion kind rest, hs, v, w, hw, h => by
    have hall := (Json.membersRetainedIn_iff (Fields.sorted_written _ v)).1 h
    refine rest.configured_merged hs.2.2 hw ?_
    refine (Json.membersRetainedIn_iff (rest.sorted_written v)).2 fun key c hc => ?_
    have hkey := rest.mem_members_of_get?_written hc
    obtain ⟨change, hchange, hkept⟩ := hall key c ((get?_written_typed hs hkey v).trans hc)
    rw [Fields.get?_encode_typed_of_mem hs hkey] at hchange
    exact ⟨change, hchange, hkept⟩
  | .cons field shape rest, hs, (v, vs), (w, ws), hw, h => by
    obtain ⟨⟨-, hmember, -⟩, hshape, hrest⟩ := hs
    have hall := (Json.membersRetainedIn_iff
      ((Fields.cons field shape rest).sorted_written (v, vs))).1 h
    refine Prod.ext ?_ (rest.configured_merged hrest (congrArg Prod.snd hw) ?_)
    · refine Presence.configured_merged (fun _ _ => shape.configured_merged hshape)
        (congrArg Prod.fst hw) fun c hc => ?_
      rw [← Fields.get?_encode_cons hmember w ws]
      exact hall field.member c (by rw [get?_written_cons hmember, hc])
    · refine (Json.membersRetainedIn_iff (rest.sorted_written vs)).2 fun key c hc => ?_
      have hne : field.member ≠ key :=
        fun heq => hmember (heq ▸ rest.mem_members_of_get?_written hc)
      obtain ⟨change, hchange, hkept⟩ := hall key c (by rw [get?_written_rest _ _ hne, hc])
      rw [Fields.get?_encode_rest w ws hne] at hchange
      exact ⟨change, hchange, hkept⟩

end

mutual

/-- Without a backend outside arrays. Of a backend with two names for one port only one counts. -/
def Shape.isPlain : Shape → Bool
  | .leaf _ | .blocks _ => true
  | .block fields => fields.isPlain
  | .backend => false

def Fields.isPlain : Fields → Bool
  | .nil => true
  | .typed _ _ rest => rest.isPlain
  | .cons _ shape rest => shape.isPlain && rest.isPlain

end

theorem TextMap.containedIn_merged (x y : TextMap) :
    (Leaf.encode .textMap y).containedIn (Leaf.encode .textMap (x.merged y)) = true := by
  refine Json.membersContainedIn_iff.2 fun e he => ?_
  have hget := Entries.get?_of_mem (Entries.sorted_map Json.str y.sorted) he
  obtain ⟨s, hs, heq⟩ := Option.map_eq_some_iff.1 ((Entries.get?_map _ _ _).symm.trans hget)
  refine ⟨e.2, ?_, ?_⟩
  · rw [Entries.get?_map, TextMap.get?_merged, hs, ← heq]
    rfl
  · rw [← heq]
    exact Json.containedIn_refl _ trivial

theorem Presence.containedIn_merged {p : Presence} {s : Shape}
    (hs : ∀ x y, s.configured y = y →
      (s.encode y).containedIn (s.encode (s.configured (s.merged x y))) = true)
    (x : p.Held s.Value) {y : p.Held s.Value} (hy : p.configured s.configured y = y) {c : Json}
    (hc : (p.sent y).map s.encode = some c) :
    ∃ v, Place.written ⟨p, s⟩ (p.merged s.merged x y) = some v ∧ c.containedIn v = true := by
  obtain ⟨z, hz, rfl⟩ := Option.map_eq_some_iff.1 hc
  cases p with
  | required | defaulted =>
    cases hz
    exact ⟨_, rfl, hs x z hy⟩
  | optional | expected =>
    cases hz
    have hz : s.configured z = z := Option.some.inj hy
    cases x with
    | none =>
      refine ⟨s.encode z, by simp [Place.written, merged, configured, sent, hz], ?_⟩
      exact Json.containedIn_refl _ (s.wellFormed_encode z)
    | some x => exact ⟨_, rfl, hs x z hz⟩
  | reported | internal =>
    cases hz
    cases hy

mutual

theorem Shape.containedIn_merged : (s : Shape) → s.Lawful → s.isPlain = true → (x : s.Value) →
    {y : s.Value} → s.configured y = y →
    (s.encode y).containedIn (s.encode (s.configured (s.merged x y))) = true
  | .leaf l, _, _, x, y, hy => by
    cases l with
    | textMap => exact TextMap.containedIn_merged x y
    | _ =>
      rw [Shape.merged, Leaf.merged, hy]
      exact Json.containedIn_refl _ (Shape.wellFormed_encode _ y)
  | .block fields, hs, hplain, x, _, hy => by
    rw [Shape.encode, Shape.encode, Json.containedIn]
    exact fields.containedIn_merged hs hplain x hy
  | .blocks fields, _, _, _, items, hy => by
    rw [Shape.merged, hy]
    exact Json.containedIn_refl _ ((Shape.blocks fields).wellFormed_encode items)

theorem Fields.containedIn_merged : (fields : Fields) → fields.Lawful → fields.isPlain = true →
    (v : fields.Value) → {w : fields.Value} → fields.configured w = w →
    Json.membersContainedIn (fields.encode w) (fields.written (fields.merged v w)) = true
  | .nil, _, _, _, _, _ => rfl
  | .typed apiVersion kind rest, hs, hplain, v, w, hw => by
    have hothers := Json.membersContainedIn_iff.1 (rest.containedIn_merged hs.2.2 hplain v hw)
    have hwritten := (Fields.typed apiVersion kind rest).wellFormed_encode w
    refine Json.membersContainedIn_iff.2 fun e he => ?_
    have hget := Entries.get?_of_mem hwritten.1 he
    by_cases hkey : e.1 ∈ rest.members
    · rw [Fields.get?_encode_typed_of_mem hs hkey] at hget
      obtain ⟨c, hc, hcontained⟩ := hothers e (Entries.mem_of_get? hget)
      exact ⟨c, (get?_written_typed hs hkey _).trans hc, hcontained⟩
    · -- What names the type is the same on every document.
      have hsame : ∀ u, Entries.get? ((Fields.typed apiVersion kind rest).encode u) e.1 =
          if "apiVersion" = e.1 then some (.str apiVersion)
          else if "kind" = e.1 then some (.str kind) else none := by
        intro u
        rw [Fields.encode_typed, Entries.get?_insert, Entries.get?_insert,
          rest.get?_encode_of_not_mem u hkey]
      refine ⟨e.2, ?_, Json.containedIn_refl _ (Json.membersWellFormed_iff.1 hwritten.2 e he)⟩
      exact (hsame _).trans ((hsame w).symm.trans hget)
  | .cons field shape rest, hs, hplain, (v, vs), (w, ws), hw => by
    obtain ⟨⟨-, hmember, -⟩, hshape, hrest⟩ := hs
    rw [Fields.isPlain, Bool.and_eq_true] at hplain
    have hothers := Json.membersContainedIn_iff.1
      (rest.containedIn_merged hrest hplain.2 vs (congrArg Prod.snd hw))
    refine Json.membersContainedIn_iff.2 fun e he => ?_
    have hget := Entries.get?_of_mem
      ((Fields.cons field shape rest).wellFormed_encode (w, ws)).1 he
    by_cases hkey : field.member = e.1
    · rw [← hkey, Fields.get?_encode_cons hmember] at hget
      obtain ⟨c, hc, hcontained⟩ := Presence.containedIn_merged
        (fun x _ => shape.containedIn_merged hshape hplain.1 x) v (congrArg Prod.fst hw) hget
      refine ⟨c, ?_, hcontained⟩
      rw [← hkey, Fields.merged, get?_written_cons hmember]
      exact hc
    · rw [Fields.get?_encode_rest w ws hkey] at hget
      rw [Fields.merged, get?_written_rest _ _ hkey]
      exact hothers e (Entries.mem_of_get? hget)

end

/-- `z` is what merging makes of `x` and `y`: where `x` is there, it is written for the values
that those two are written for, merged. An expanded object drops nothing of the second value. -/
def Place.Merges (p : Place) (x y z : Option Json) : Prop :=
  ∃ b : p.presence.Held p.shape.Value, y = p.written b ∧
    p.presence.configured p.shape.configured b = b ∧
    (x = none ∧ z = y ∨
      ∃ a, x = p.written a ∧ z = p.written (p.presence.merged p.shape.merged a b))

namespace Place

variable {p : Place} {x y z : Option Json}

theorem Merges.eq_of_retained (h : p.Merges x y z) (hs : p.shape.Lawful)
    (hkept : ∀ v, x = some v → ∃ change, y = some change ∧ v.retainedIn change = true) :
    z = y := by
  obtain ⟨b, rfl, hb, ⟨-, hz⟩ | ⟨a, rfl, rfl⟩⟩ := h
  · exact hz
  · have hsent : Place.written p b = (p.presence.sent b).map p.shape.encode := by
      rw [Place.written, hb]
    rw [hsent] at hkept ⊢
    rw [Place.written,
      Presence.configured_merged (fun _ _ => p.shape.configured_merged hs) hb hkept]

theorem Merges.contains (h : p.Merges x y z) (hs : p.shape.Lawful) (hplain : p.shape.isPlain = true)
    {c : Json} (hc : y = some c) : ∃ v, z = some v ∧ c.containedIn v = true := by
  obtain ⟨b, rfl, hb, ⟨-, rfl⟩ | ⟨a, rfl, rfl⟩⟩ := h
  · obtain ⟨u, -, rfl⟩ := Option.map_eq_some_iff.1 hc
    exact ⟨_, hc, Json.containedIn_refl _ (p.shape.wellFormed_encode u)⟩
  · rw [Place.written, hb] at hc
    exact Presence.containedIn_merged (fun x _ => p.shape.containedIn_merged hs hplain x) a hb hc

/-- The document of a block that is always there. -/
theorem written_block {p : Presence} (h : p.isSolid) {inner : Fields}
    (x : p.Held (Shape.block inner).Value) :
    Place.written ⟨p, .block inner⟩ x = (p.sent x).map (fun a => .obj (inner.written a)) := by
  exact Place.written_kept (Presence.isKept_of_isSolid h) x

end Place

theorem Presence.sent_merged (p : Presence) {α : Type} (f : α → α → α) (x y : p.Held α) :
    p.sent (p.merged f x y) = (p.sent x).merge f (p.sent y) := by
  cases p <;> rfl

/-- A path leads to the merged values of its field. -/
theorem Fields.merges_of_place? (fields : Fields) (hs : fields.Lawful) {path : List String}
    {place : Place} (hplace : fields.place? path = some place) (v : fields.Value)
    {w : fields.Value} (hw : fields.Complete w) (hconfigured : fields.configured w = w) :
    place.Merges (resolve? path (.obj (fields.written v)))
      (resolve? path (.obj (fields.written w)))
      (resolve? path (.obj (fields.written (fields.merged v w)))) := by
  replace hplace := fields.reaches_of_place? hplace
  induction hplace with
  | typed hrest ih =>
    have hothers := ih hs.2.2 v hw hconfigured
    simp only [Json.resolve?_cons, get?_written_typed hs hrest.mem_members] at hothers ⊢
    exact hothers
  | here =>
    obtain ⟨v, vs⟩ := v
    obtain ⟨w, ws⟩ := w
    obtain ⟨hconfigured, -⟩ := Prod.ext_iff.1 hconfigured
    simp only [merged, Json.resolve?_singleton, get?_written_cons hs.1.2.1]
    exact ⟨w, rfl, hconfigured, Or.inr ⟨v, rfl, rfl⟩⟩
  | @inside field inner rest _ _ _ hsolid _ ih =>
    obtain ⟨v, vs⟩ := v
    obtain ⟨w, ws⟩ := w
    obtain ⟨hconfigured, -⟩ := Prod.ext_iff.1 hconfigured
    obtain ⟨b, hb, hbcomplete⟩ : ∃ b, field.presence.sent w = some b ∧ inner.Complete b :=
      Presence.sent_solid hsolid hw.1
    have hbconfigured : inner.configured b = b :=
      Presence.configured_of_sent (Presence.isKept_of_isSolid hsolid) hconfigured hb
    have hmerged := field.presence.sent_merged (Shape.block inner).merged v w
    simp only [merged, Json.resolve?_cons, get?_written_cons hs.1.2.1, Place.written_block hsolid,
      hmerged, hb]
    cases hv : field.presence.sent v with
    | none =>
      obtain ⟨c, hc, hcconfigured, -⟩ := ih hs.2.1 b hbcomplete hbconfigured
      exact ⟨c, hc, hcconfigured, Or.inl ⟨rfl, rfl⟩⟩
    | some a => exact ih hs.2.1 a hbcomplete hbconfigured
  | later hkey _ ih =>
    obtain ⟨v, vs⟩ := v
    obtain ⟨w, ws⟩ := w
    obtain ⟨-, hconfigured⟩ := Prod.ext_iff.1 hconfigured
    have hothers := ih hs.2.2 vs hw.2 hconfigured
    simp only [merged, Json.resolve?_cons, get?_written_rest _ _ hkey] at hothers ⊢
    exact hothers

end DesiredState.Schema
