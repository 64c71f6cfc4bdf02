import DesiredState.Json.Pointer
import DesiredState.Proofs.Entries

/-!
Well-formed documents.
Every part of a well-formed document is well formed, and so is an object with
one more member that is.
-/
namespace DesiredState

namespace Json

theorem members?_eq_some {v : Json} {members : List (String × Json)} :
    v.members? = some members ↔ v = .obj members := by
  cases v <;> simp [members?]

mutual

def decideWellFormed : (v : Json) → Decidable v.WellFormed
  | null | bool _ | str _ => isTrue trivial
  | num (.int i) => inferInstanceAs (Decidable (Int64.minValue.toInt ≤ i ∧ i < UInt64.size))
  | num (.real _) => isTrue trivial
  | arr items => decideAllWellFormed items
  | obj members =>
    let _ := decideMembersWellFormed members
    inferInstanceAs (Decidable (Entries.Sorted members ∧ MembersWellFormed members))

def decideAllWellFormed : (items : List Json) → Decidable (AllWellFormed items)
  | [] => isTrue trivial
  | v :: rest =>
    let _ := v.decideWellFormed
    let _ := decideAllWellFormed rest
    inferInstanceAs (Decidable (v.WellFormed ∧ AllWellFormed rest))

def decideMembersWellFormed :
    (members : List (String × Json)) → Decidable (MembersWellFormed members)
  | [] => isTrue trivial
  | (_, v) :: rest =>
    let _ := v.decideWellFormed
    let _ := decideMembersWellFormed rest
    inferInstanceAs (Decidable (v.WellFormed ∧ MembersWellFormed rest))

end

instance (v : Json) : Decidable v.WellFormed := v.decideWellFormed

theorem allWellFormed_iff {items : List Json} :
    AllWellFormed items ↔ ∀ v ∈ items, v.WellFormed := by
  induction items with
  | nil => simp [AllWellFormed]
  | cons first rest ih => simp [AllWellFormed, ih]

theorem membersWellFormed_iff {members : List (String × Json)} :
    MembersWellFormed members ↔ ∀ e ∈ members, e.2.WellFormed := by
  induction members with
  | nil => simp [MembersWellFormed]
  | cons e rest ih => simp [MembersWellFormed, ih]

theorem wellFormed_insert {members : List (String × Json)} (h : (obj members).WellFormed)
    (key : String) {v : Json} (hv : v.WellFormed) :
    (obj (Entries.insert key v members)).WellFormed := by
  refine ⟨Entries.sorted_insert key v h.1, membersWellFormed_iff.2 fun e he => ?_⟩
  rcases Entries.mem_insert he with rfl | he
  · exact hv
  · exact membersWellFormed_iff.1 h.2 e he

theorem wellFormed_insert? {members : List (String × Json)} (h : (obj members).WellFormed)
    (key : String) {value : Option Json} (hvalue : ∀ v, value = some v → v.WellFormed) :
    (obj (Entries.insert? key value members)).WellFormed := by
  cases value with
  | none => exact h
  | some v => exact wellFormed_insert h key (hvalue v rfl)

theorem wellFormed_empty : (obj []).WellFormed := ⟨Entries.sorted_nil, trivial⟩

theorem wellFormed_str (s : String) : (str s).WellFormed := trivial

theorem wellFormed_int32 (i : Int32) : (Json.int i.toInt).WellFormed := by
  have hleast := Int32.le_toInt i
  have hgreatest := Int32.toInt_lt i
  change -2 ^ 63 ≤ i.toInt ∧ i.toInt < 2 ^ 64
  omega

theorem wellFormed_int64 (i : Int64) : (Json.int i.toInt).WellFormed := by
  have hleast := Int64.le_toInt i
  have hgreatest := Int64.toInt_lt i
  change -2 ^ 63 ≤ i.toInt ∧ i.toInt < 2 ^ 64
  omega

theorem WellFormed.step? {v : Json} (h : v.WellFormed) {token : String} {x : Json}
    (hx : v.step? token = some x) : x.WellFormed := by
  cases v with
  | obj members => exact membersWellFormed_iff.1 h.2 _ (Entries.mem_of_get? hx)
  | arr items =>
    obtain ⟨i, -, hitem⟩ := Option.bind_eq_some_iff.1 hx
    exact allWellFormed_iff.1 h _ (List.mem_of_getElem? hitem)
  | _ => simp [Json.step?] at hx

theorem WellFormed.resolve? {v : Json} (h : v.WellFormed) {path : List String} {x : Json}
    (hx : Json.resolve? path v = some x) : x.WellFormed := by
  induction path generalizing v with
  | nil =>
    cases hx
    exact h
  | cons token rest ih =>
    obtain ⟨c, hc, hrest⟩ := Option.bind_eq_some_iff.1 hx
    exact ih (h.step? hc) hrest

theorem WellFormed.pointer? {v : Json} (h : v.WellFormed) {pointer : String} {x : Json}
    (hx : v.pointer? pointer = some x) : x.WellFormed := by
  obtain ⟨tokens, -, hresolve⟩ := Option.bind_eq_some_iff.1 hx
  exact h.resolve? hresolve

end Json

end DesiredState
