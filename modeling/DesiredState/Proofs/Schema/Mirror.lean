import DesiredState.Proofs.Schema.Place
import Mathlib.Data.List.Forall2

/-!
Values and what is written for them.
A value mirrors another one if it can be read and the other one is written for
it. Arrays go together element by element unless they are sets, and texts under
keys are written as they are.
-/
namespace DesiredState.Schema

/-- `x` reads as a value with a property, which is written as `y`. -/
def Mirrored {α : Type} (read : Json → Option α) (P : α → Prop) (write : α → Json)
    (x y : Json) : Prop :=
  ∃ v, read x = some v ∧ P v ∧ y = write v

/-- A complete value is written as it is configured. -/
def Shape.Mirrors (s : Shape) : Json → Json → Prop :=
  Mirrored s.decode s.Complete (fun v => s.encode (s.configured v))

/-- How the elements of an array go together where the array is no set. -/
def Shape.MirrorsItem : Shape → Json → Json → Prop
  | .leaf .texts => Mirrored Json.asString? (fun _ => True) .str
  | .blocks fields =>
    Mirrored (fun x => x.members?.bind fields.decode) fields.Complete
      (fun v => .obj (fields.written v))
  | _ => fun _ _ => False

theorem Place.reflects_some {p : Place} (hkept : p.presence.isKept) {x : Json}
    (hnull : x.isNull = false) {y : Option Json} :
    p.Reflects (some x) y ↔ ∃ z, y = some z ∧ p.shape.Mirrors x z := by
  obtain ⟨presence, shape⟩ := p
  have hread : ∀ found, ((some x).getD Json.null).readUnlessNull shape.decode = some found ↔
      ∃ v, shape.decode x = some v ∧ found = some v := by
    intro found
    simp only [Option.getD_some, Json.readUnlessNull, hnull, Bool.false_eq_true, if_false,
      Option.map_eq_some_iff]
    constructor
    · rintro ⟨v, hv, rfl⟩
      exact ⟨v, hv, rfl⟩
    · rintro ⟨v, hv, rfl⟩
      exact ⟨v, hv, rfl⟩
  have hheld : ∀ v, presence.Complete shape.Complete (Place.held ⟨presence, shape⟩ (some v)) ↔
      shape.Complete v := by
    intro v
    cases presence <;> simp_all [Presence.Complete, Place.held, Presence.received, Presence.isKept]
  have hwritten : ∀ v, Place.written ⟨presence, shape⟩ (Place.held ⟨presence, shape⟩ (some v)) =
      some (shape.encode (shape.configured v)) := by
    intro v
    cases presence <;> first | rfl | simp [Presence.isKept] at hkept
  unfold Place.Reflects Shape.Mirrors Mirrored
  constructor
  · rintro ⟨found, hfound, hcomplete, rfl⟩
    obtain ⟨v, hv, rfl⟩ := (hread found).1 hfound
    exact ⟨_, hwritten v, v, hv, (hheld v).1 hcomplete, rfl⟩
  · rintro ⟨z, rfl, v, hv, hcomplete, rfl⟩
    exact ⟨some v, (hread _).2 ⟨v, hv, rfl⟩, (hheld v).2 hcomplete, (hwritten v).symm⟩

/-- The elements of an array are read and written one by one. -/
theorem forall₂_mirrored {α : Type} (read : Json → Option α) (P : α → Prop) (write : α → Json)
    (items ys : List Json) :
    (∃ vs, items.mapM read = some vs ∧ (∀ v ∈ vs, P v) ∧ ys = vs.map write) ↔
      List.Forall₂ (Mirrored read P write) items ys := by
  induction items generalizing ys with
  | nil => simp
  | cons x rest ih =>
    rw [List.forall₂_cons_left_iff]
    constructor
    · rintro ⟨vs, hvs, hall, rfl⟩
      rw [List.mapM_cons] at hvs
      obtain ⟨v, hv, hvs⟩ := Option.bind_eq_some_iff.1 hvs
      obtain ⟨others, hothers, heq⟩ := Option.bind_eq_some_iff.1 hvs
      cases heq
      obtain ⟨hfirst, hall⟩ := List.forall_mem_cons.1 hall
      exact ⟨_, _, ⟨v, hv, hfirst, rfl⟩, (ih _).1 ⟨others, hothers, hall, rfl⟩, rfl⟩
    · rintro ⟨_, others, ⟨v, hv, hfirst, rfl⟩, hrest, rfl⟩
      obtain ⟨vs, hvs, hall, rfl⟩ := (ih others).2 hrest
      refine ⟨v :: vs, ?_, List.forall_mem_cons.2 ⟨hfirst, hall⟩, rfl⟩
      simp [hv, hvs]

namespace Shape

variable {s : Shape}

theorem mirrors_texts {items : List Json} {y : Json} :
    (leaf .texts).Mirrors (.arr items) y ↔
      ∃ ys, y = .arr ys ∧ List.Forall₂ (leaf .texts).MirrorsItem items ys := by
  have hall := forall₂_mirrored Json.asString? (fun _ => True) .str items
  constructor
  · rintro ⟨texts, hdecode, -, rfl⟩
    exact ⟨_, rfl, (hall _).1 ⟨texts, hdecode, fun _ _ => trivial, rfl⟩⟩
  · rintro ⟨ys, rfl, hys⟩
    obtain ⟨texts, hdecode, -, rfl⟩ := (hall ys).2 hys
    exact ⟨texts, hdecode, trivial, rfl⟩

theorem mirrors_blocks {fields : Fields} {items : List Json} {y : Json} :
    (blocks fields).Mirrors (.arr items) y ↔
      ∃ ys, y = .arr ys ∧ List.Forall₂ (blocks fields).MirrorsItem items ys := by
  have hall := forall₂_mirrored (fun x => x.members?.bind fields.decode) fields.Complete
    (fun v => .obj (fields.written v)) items
  have hwritten : ∀ vs : List fields.Value,
      (blocks fields).encode ((blocks fields).configured vs) =
        .arr (vs.map (fun v => .obj (fields.written v))) := by
    intro vs
    change Json.arr ((vs.map fields.configured).map (fun v => .obj (fields.encode v))) = _
    rw [List.map_map]
    rfl
  constructor
  · rintro ⟨vs, hvs, hcomplete, rfl⟩
    exact ⟨_, hwritten vs, (hall _).1 ⟨vs, hvs, hcomplete, rfl⟩⟩
  · rintro ⟨ys, rfl, hys⟩
    obtain ⟨vs, hvs, hcomplete, rfl⟩ := (hall ys).2 hys
    exact ⟨vs, hvs, hcomplete, (hwritten vs).symm⟩

theorem mirrors_arr (hset : s ≠ .leaf .textSet) {xs : List Json} {y : Json}
    (h : s.Mirrors (.arr xs) y) (items : List Json) (z : Json) :
    s.Mirrors (.arr items) z ↔ ∃ zs, z = .arr zs ∧ List.Forall₂ s.MirrorsItem items zs := by
  obtain ⟨v, hv, -⟩ := h
  match s with
  | .leaf .texts => exact mirrors_texts
  | .blocks fields => exact mirrors_blocks
  | .leaf .textSet => exact absurd rfl hset
  | .leaf .text | .leaf .int32 | .leaf .int64 | .leaf .flag | .leaf .textMap | .leaf .intOrText
  | .block _ =>
    simp [decode, Leaf.decode, Json.asString?, Json.asInt32?, Json.asInt64?, Json.asInt?,
      Json.members?] at hv
  | .backend => simp [decode, Backend.decode, Json.members?] at hv

theorem eq_arr_of_mirrors {x : Json} {ps : List Json} (h : s.Mirrors x (.arr ps)) :
    ∃ xs, x = .arr xs := by
  obtain ⟨v, hv, -, hy⟩ := h
  have hlist : (∃ l, s = .leaf l ∧ (l = .texts ∨ l = .textSet)) ∨ ∃ fields, s = .blocks fields := by
    match s, v with
    | .leaf .texts, _ => exact Or.inl ⟨_, rfl, Or.inl rfl⟩
    | .leaf .textSet, _ => exact Or.inl ⟨_, rfl, Or.inr rfl⟩
    | .blocks fields, _ => exact Or.inr ⟨fields, rfl⟩
    | .leaf .text, _ | .leaf .int32, _ | .leaf .int64, _ | .leaf .flag, _ | .leaf .textMap, _
    | .block _, _ => cases hy
    | .backend, _ => cases hy
    | .leaf .intOrText, v =>
      change _ = Leaf.encode .intOrText (Leaf.configured .intOrText v) at hy
      cases hv : Leaf.configured .intOrText v <;> rw [hv] at hy <;> cases hy
  rcases hlist with ⟨l, rfl, rfl | rfl⟩ | ⟨fields, rfl⟩
  all_goals
    cases x with
    | arr xs => exact ⟨xs, rfl⟩
    | _ => simp [decode, Leaf.decode, Leaf.decodeTexts, Json.items?] at hv

/-- Texts under keys, in the order of the keys, are read and written as they are. -/
theorem mirrors_textMap {members : List (String × Json)} (h : Entries.Sorted members) (y : Json) :
    (leaf .textMap).Mirrors (.obj members) y ↔
      y = .obj members ∧ ∀ e ∈ members, ∃ s, e.2 = .str s := by
  have hvalue : ∀ v, (leaf .textMap).decode (.obj members) = some v ↔
      ∃ texts, members = Entries.map .str texts ∧ TextMap.ofList texts = v := by
    intro v
    change (members.mapM Leaf.decodeEntry).map TextMap.ofList = some v ↔ _
    rw [Option.map_eq_some_iff]
    constructor
    · rintro ⟨texts, htexts, hv⟩
      exact ⟨texts, Leaf.eq_texts_of_decodeEntries htexts, hv⟩
    · rintro ⟨texts, rfl, hv⟩
      exact ⟨texts, Leaf.decodeEntries_texts texts, hv⟩
  constructor
  · rintro ⟨v, hv, -, rfl⟩
    obtain ⟨texts, rfl, rfl⟩ := (hvalue v).1 hv
    have hsorted := Entries.sorted_of_sorted_map h
    refine ⟨?_, fun e he => ?_⟩
    · change Json.obj (Entries.map .str (Entries.ofList texts)) = _
      rw [Entries.ofList_of_sorted hsorted]
    · obtain ⟨f, -, rfl⟩ := List.mem_map.1 he
      exact ⟨f.2, rfl⟩
  · rintro ⟨rfl, hall⟩
    obtain ⟨texts, rfl⟩ := Leaf.exists_texts hall
    have hsorted := Entries.sorted_of_sorted_map h
    refine ⟨TextMap.ofList texts, (hvalue _).2 ⟨texts, rfl, rfl⟩, trivial, ?_⟩
    change _ = Json.obj (Entries.map .str (Entries.ofList texts))
    rw [Entries.ofList_of_sorted hsorted]

theorem eq_obj_of_mirrors_textMap {x y : Json} (h : (leaf .textMap).Mirrors x y) :
    ∃ members, x = .obj members := by
  obtain ⟨v, hv, -⟩ := h
  cases x with
  | obj members => exact ⟨members, rfl⟩
  | _ => simp [decode, Leaf.decode, Json.members?] at hv

end Shape

end DesiredState.Schema
