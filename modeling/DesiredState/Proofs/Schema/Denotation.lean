import DesiredState.Proofs.Json.Integral
import DesiredState.Proofs.Schema.Coverage
import DesiredState.Proofs.Schema.Naming

/-!
What the two names of a field denote.
A field of a complete and configured value is held once: its path of keys finds
the tree of what is held, and its path of members the document. Neither
way of writing loses anything of such a value, so two values agree in their
trees at a field exactly if they agree in their documents there.
-/
namespace DesiredState.Schema

open Json (resolve?)

section Integral

theorem Leaf.integral_encode (l : Leaf) (v : l.Value) : (l.encode v).Integral := by
  cases l with
  | text | flag | int32 | int64 => trivial
  | texts | textSet =>
    refine Json.allIntegral_iff.2 fun x hx => ?_
    obtain ⟨s, -, rfl⟩ := List.mem_map.1 hx
    trivial
  | textMap =>
    refine Json.membersIntegral_iff.2 fun e he => ?_
    obtain ⟨f, -, rfl⟩ := List.mem_map.1 he
    trivial
  | intOrText => cases v <;> trivial

theorem ServicePort.integral_encode (p : ServicePort) : p.encode.Integral := by
  have hempty : (Json.obj []).Integral := trivial
  refine Json.integral_insert? (Json.integral_insert? hempty _ ?_) _ ?_
  · intro x hx
    obtain ⟨s, -, rfl⟩ := Option.map_eq_some_iff.1 hx
    trivial
  · intro x hx
    obtain ⟨i, -, rfl⟩ := Option.map_eq_some_iff.1 hx
    trivial

theorem Service.integral_encode (s : Service) : s.encode.Integral := by
  have hempty : (Json.obj []).Integral := trivial
  refine Json.integral_insert (Json.integral_insert? hempty _ ?_) _ trivial
  intro x hx
  obtain ⟨p, -, rfl⟩ := Option.map_eq_some_iff.1 hx
  exact p.integral_encode

theorem Backend.integral_encode (b : Backend) : b.encode.Integral := by
  have hempty : (Json.obj []).Integral := trivial
  refine Json.integral_insert? hempty _ ?_
  intro x hx
  obtain ⟨s, -, rfl⟩ := Option.map_eq_some_iff.1 hx
  exact s.integral_encode

mutual

/-- No field holds a fraction. -/
theorem Shape.integral_encode : (s : Shape) → (v : s.Value) → (s.encode v).Integral
  | .leaf l, v => l.integral_encode v
  | .block fields, v => fields.integral_encode v
  | .blocks fields, items => by
    refine Json.allIntegral_iff.2 fun x hx => ?_
    obtain ⟨v, -, rfl⟩ := List.mem_map.1 hx
    exact fields.integral_encode v
  | .backend, b => b.integral_encode

theorem Fields.integral_encode : (fields : Fields) → (v : fields.Value) →
    (Json.obj (fields.encode v)).Integral
  | .nil, _ => trivial
  | .typed _ kind rest, v =>
    have hkind : (Json.str kind).Integral := trivial
    Json.integral_insert (Json.integral_insert (rest.integral_encode v) _ hkind) _ trivial
  | .cons field shape rest, (v, vs) => by
    refine Json.integral_insert? (rest.integral_encode vs) _ fun x hx => ?_
    obtain ⟨y, -, rfl⟩ := Option.map_eq_some_iff.1 hx
    exact shape.integral_encode y

end

end Integral

theorem Shape.encode_injective {s : Shape} (hs : s.Lawful) {v w : s.Value}
    (h : s.encode v = s.encode w) : v = w := by
  have hsame : some v = some w := by
    rw [← s.decode_encode hs v, h, s.decode_encode hs w]
  exact Option.some.inj hsame

/-- Nothing is missing in a value, and all of it can be configured. -/
def Shape.Given (s : Shape) (v : s.Value) : Prop := s.Complete v ∧ s.configured v = v

/-- Different values that can be given are written as different trees. -/
theorem Shape.flatten_injective {s : Shape} (hs : s.Lawful) {v w : s.Value} (hv : s.Given v)
    (hw : s.Given w) (h : s.flatten v = s.flatten w) : v = w := by
  have hread : ∀ u : s.Value, s.Given u → s.expand [] (s.flatten u) = .ok (some u) :=
    fun u hu => (s.expand_flatten_iff hs [] u (some u)).2 ⟨hu.1, by rw [hu.2]⟩
  have hsame : Except.ok (some v) = Except.ok (ε := Tree.Violation) (some w) := by
    rw [← hread v hv, h, hread w hw]
  cases hsame
  rfl

theorem Presence.shown_of_isKept {p : Presence} (h : p.isKept) {α : Type} (v : p.Held α) :
    p.shown v = p.sent v := by
  cases p with
  | reported | internal => cases h
  | _ => rfl

theorem Presence.complete_of_sent {p : Presence} (h : p.isKept) {α : Type} {P : α → Prop}
    {v : p.Held α} (hcomplete : p.Complete P v) {x : α} (hx : p.sent v = some x) : P x := by
  cases p with
  | optional => exact hcomplete x hx
  | required | defaulted =>
    cases hx
    exact hcomplete
  | expected =>
    obtain ⟨y, rfl, hy⟩ := hcomplete
    cases hx
    exact hy
  | reported | internal => cases h

namespace Place

/-- A tree and a document at a place are those of one value, or both are missing. -/
def Denotes (p : Place) (t : Option Tree) (x : Option Json) : Prop :=
  ∃ held : Option p.shape.Value, t = held.map p.shape.flatten ∧ x = held.map p.shape.encode ∧
    ∀ v, held = some v → p.shape.Given v

variable {p : Place} {t u : Option Tree} {x y : Option Json}

theorem Denotes.isSome_iff (h : p.Denotes t x) : t.isSome ↔ x.isSome := by
  obtain ⟨held, rfl, rfl, -⟩ := h
  rw [Option.isSome_map, Option.isSome_map]

theorem Denotes.eq_iff (hs : p.shape.Lawful) (h : p.Denotes t x) (h' : p.Denotes u y) :
    t = u ↔ x = y := by
  obtain ⟨v, rfl, rfl, hv⟩ := h
  obtain ⟨w, rfl, rfl, hw⟩ := h'
  cases v with
  | none => cases w <;> simp
  | some v =>
    cases w with
    | none => simp
    | some w =>
      simp only [Option.map_some, Option.some.injEq]
      constructor
      · intro heq
        rw [Shape.flatten_injective hs (hv v rfl) (hw w rfl) heq]
      · intro heq
        rw [Shape.encode_injective hs heq]

/-- No field has a document that is equal to another one without being the same. -/
theorem Denotes.beq_iff (h : p.Denotes t x) : (x == y) = true ↔ x = y := by
  obtain ⟨held, rfl, rfl, -⟩ := h
  constructor
  · intro hsame
    cases held with
    | none =>
      cases y with
      | none => rfl
      | some _ => cases hsame
    | some v =>
      cases y with
      | none => cases hsame
      | some y => exact congrArg some (Json.eq_of_same (p.shape.integral_encode v) hsame)
  · rintro rfl
    exact BEq.rfl

end Place

/-- A path of keys starts with a key of the block. -/
theorem Fields.exists_key_of_keyPath? (fields : Fields) {members keys : List String}
    (h : fields.keyPath? members = some keys) :
    ∃ key path, keys = key :: path ∧ key ∈ fields.keys := by
  obtain ⟨place, hplace⟩ := exists_place h
  replace hplace := fields.reaches_of_place? hplace
  induction hplace with
  | typed _ ih => exact ih h
  | here =>
    rw [keyPath?_here] at h
    cases h
    exact ⟨_, _, rfl, List.mem_cons_self⟩
  | inside hsolid =>
    rw [keyPath?_inside hsolid] at h
    obtain ⟨path, -, rfl⟩ := Option.map_eq_some_iff.1 h
    exact ⟨_, _, rfl, List.mem_cons_self⟩
  | later hkey _ ih =>
    rw [keyPath?_later hkey] at h
    obtain ⟨key, path, rfl, hmem⟩ := ih h
    exact ⟨key, path, rfl, List.mem_cons_of_mem _ hmem⟩

/-- In a complete and configured value, the two paths of a field denote one value. -/
theorem Fields.denotes_of_keyPath? (fields : Fields) (hs : fields.Lawful)
    {members keys : List String} {place : Place} (hplace : fields.place? members = some place)
    (hkeys : fields.keyPath? members = some keys) (hkept : place.presence.isKept)
    {v : fields.Value} (hcomplete : fields.Complete v) (hconfigured : fields.configured v = v) :
    place.Denotes ((Tree.map (fields.flatten v)).walk? keys)
      (resolve? members (.obj (fields.encode v))) := by
  replace hplace := fields.reaches_of_place? hplace
  induction hplace generalizing keys with
  | typed hrest ih =>
    have hothers := ih hs.2.2 hkeys hkept hcomplete hconfigured
    rw [Json.resolve?_cons] at hothers ⊢
    rw [get?_encode_typed_of_mem hs hrest.mem_members]
    exact hothers
  | here =>
    obtain ⟨v, vs⟩ := v
    obtain ⟨hv, -⟩ := Prod.ext_iff.1 hconfigured
    rw [keyPath?_here] at hkeys
    cases hkeys
    rw [Json.resolve?_singleton, get?_encode_cons hs.1.2.1, walk?_cons, get?_flatten_cons hs.1.1,
      Presence.shown_of_isKept hkept]
    refine ⟨_, ?_, rfl, fun x hx => ?_⟩
    · cases Presence.sent _ v <;> rfl
    · exact ⟨Presence.complete_of_sent hkept hcomplete.1 hx,
        Presence.configured_of_sent hkept hv hx⟩
  | inside hsolid _ ih =>
    obtain ⟨v, vs⟩ := v
    obtain ⟨hv, -⟩ := Prod.ext_iff.1 hconfigured
    rw [keyPath?_inside hsolid] at hkeys
    obtain ⟨deeper, hdeeper, rfl⟩ := Option.map_eq_some_iff.1 hkeys
    obtain ⟨x, hx, hxcomplete⟩ := Presence.sent_solid hsolid hcomplete.1
    have hfieldKept := Presence.isKept_of_isSolid hsolid
    have hxconfigured := Presence.configured_of_sent hfieldKept hv hx
    rw [Json.resolve?_cons, get?_encode_cons hs.1.2.1, walk?_cons, get?_flatten_cons hs.1.1,
      Presence.shown_of_isKept hfieldKept, hx, Option.map_some, Option.bind_some, Shape.flatten,
      walk?_block]
    exact ih hs.2.1 hdeeper hkept hxcomplete hxconfigured
  | later hkey _ ih =>
    obtain ⟨v, vs⟩ := v
    obtain ⟨-, hvs⟩ := Prod.ext_iff.1 hconfigured
    rw [keyPath?_later hkey] at hkeys
    have hothers := ih hs.2.2 hkeys hkept hcomplete.2 hvs
    obtain ⟨first, path, rfl, hfirst⟩ := exists_key_of_keyPath? _ hkeys
    rw [Json.resolve?_cons, walk?_cons] at hothers ⊢
    rw [get?_encode_rest _ _ hkey, get?_flatten_rest hs.1.1 v vs hfirst]
    exact hothers

end DesiredState.Schema
