import DesiredState.Proofs.Outcome
import DesiredState.Proofs.Schema.Leaf
import DesiredState.Proofs.Tree
import DesiredState.Tree.Document

/-!
Configuration trees and documents stand for each other.
A document can be read as a tree exactly if its numbers are integers of 64
signed bits and each null in it is a member of an object. Written again, the
tree is the document without those members. A tree that is written can be read,
and only its sets come back as something else, which is the list of their
strings in order.
-/
namespace DesiredState

namespace Json

/-- The first value is the second one or lies in it at some depth. -/
inductive Occurs : Json → Json → Prop
  | self (v : Json) : Occurs v v
  | item {x y : Json} {items : List Json} (hx : x ∈ items) (h : Occurs y x) :
    Occurs y (.arr items)
  | member {key : String} {x y : Json} {members : List (String × Json)}
    (hx : (key, x) ∈ members) (h : Occurs y x) : Occurs y (.obj members)

/-- A document that a tree can hold. -/
structure Configurable (v : Json) : Prop where
  integers : ∀ n, Occurs (.num n) v →
    ∃ i : Int, n = .int i ∧ Int64.minValue.toInt ≤ i ∧ i ≤ Int64.maxValue.toInt
  notNull : v ≠ .null
  noNullItem : ∀ items, Occurs (.arr items) v → .null ∉ items

mutual

/-- The document without the members that are null, at every depth. -/
def withoutNulls : Json → Json
  | arr items => arr (itemsWithoutNulls items)
  | obj members => obj (membersWithoutNulls members)
  | v => v

def itemsWithoutNulls : List Json → List Json
  | [] => []
  | x :: rest => x.withoutNulls :: itemsWithoutNulls rest

def membersWithoutNulls : List (String × Json) → List (String × Json)
  | [] => []
  | (_, null) :: rest => membersWithoutNulls rest
  | (key, x) :: rest => (key, x.withoutNulls) :: membersWithoutNulls rest

end

theorem membersWithoutNulls_cons {x : Json} (hx : x ≠ null) (key : String)
    (rest : List (String × Json)) :
    membersWithoutNulls ((key, x) :: rest) = (key, x.withoutNulls) :: membersWithoutNulls rest := by
  rw [membersWithoutNulls]
  exact hx

theorem not_configurable_null : ¬ null.Configurable := fun h => h.notNull rfl

theorem configurable_bool (b : Bool) : (bool b).Configurable := by
  refine ⟨fun n h => ?_, by simp, fun items h => ?_⟩ <;> cases h

theorem configurable_str (s : String) : (str s).Configurable := by
  refine ⟨fun n h => ?_, by simp, fun items h => ?_⟩ <;> cases h

theorem configurable_num {n : Number} :
    (num n).Configurable ↔
      ∃ i : Int, n = .int i ∧ Int64.minValue.toInt ≤ i ∧ i ≤ Int64.maxValue.toInt := by
  constructor
  · intro h
    exact h.integers n (.self _)
  · intro h
    refine ⟨fun m hm => ?_, by simp, fun items hitems => ?_⟩
    · cases hm
      exact h
    · cases hitems

theorem configurable_arr {items : List Json} :
    (arr items).Configurable ↔ ∀ x ∈ items, x.Configurable := by
  constructor
  · intro h x hx
    refine ⟨fun n hn => h.integers n (.item hx hn), ?_, fun l hl => h.noNullItem l (.item hx hl)⟩
    rintro rfl
    exact h.noNullItem items (.self _) hx
  · intro h
    refine ⟨fun n hn => ?_, by simp, fun l hl hnull => ?_⟩
    · cases hn with
      | item hx hn => exact (h _ hx).integers n hn
    · cases hl with
      | self => exact (h _ hnull).notNull rfl
      | item hx hl => exact (h _ hx).noNullItem l hl hnull

theorem configurable_obj {members : List (String × Json)} :
    (obj members).Configurable ↔ ∀ e ∈ members, e.2 = null ∨ e.2.Configurable := by
  constructor
  · intro h e he
    refine or_iff_not_imp_left.2 fun hne => ⟨fun n hn => ?_, hne, fun l hl => ?_⟩
    · exact h.integers n (.member he hn)
    · exact h.noNullItem l (.member he hl)
  · intro h
    refine ⟨fun n hn => ?_, by simp, fun l hl => ?_⟩
    · cases hn with
      | member hx hn =>
        rcases h _ hx with rfl | hx
        · cases hn
        · exact hx.integers n hn
    · cases hl with
      | member hx hl =>
        rcases h _ hx with rfl | hx
        · cases hl
        · exact hx.noNullItem l hl

end Json

namespace Tree

mutual

/-- The tree with the list of its strings in order in place of each set. -/
def listed : Tree → Tree
  | list items => list (itemsListed items)
  | set items => strings (sortedItems items)
  | map entries => map (entriesListed entries)
  | t => t

def itemsListed : List Tree → List Tree
  | [] => []
  | t :: rest => t.listed :: itemsListed rest

def entriesListed : List (String × Tree) → List (String × Tree)
  | [] => []
  | (key, t) :: rest => (key, t.listed) :: entriesListed rest

end

theorem ofJson_num {n : Number} {t : Tree} :
    ofJson (.num n) = .ok t ↔
      ∃ i : Int, (n = .int i ∧ Int64.minValue.toInt ≤ i ∧ i ≤ Int64.maxValue.toInt) ∧
        t = .int (Int64.ofInt i) := by
  have hread : ∀ i : Int, (n = .int i ∧ Int64.minValue.toInt ≤ i ∧ i ≤ Int64.maxValue.toInt) ↔
      (Json.num n).asInt64? = some i := by
    intro i
    rw [Json.asInt64?_eq_some, Json.int, Json.num.injEq]
  simp only [hread]
  rw [ofJson]
  cases (Json.num n).asInt64? <;> simp [eq_comm]

theorem entriesOfJson_cons {x : Json} (hx : x ≠ .null) (key : String)
    (rest : List (String × Json)) :
    entriesOfJson ((key, x) :: rest) = (do
      let t ← ofJson x
      return (key, t) :: (← entriesOfJson rest)) := by
  rw [entriesOfJson]
  exact hx

mutual

/-- A document can be read as a tree exactly if a tree can hold it. -/
theorem exists_ofJson_iff : (v : Json) → ((∃ t, ofJson v = .ok t) ↔ v.Configurable)
  | .null => by simp [ofJson, Json.not_configurable_null]
  | .bool b => by simp [ofJson, Json.configurable_bool]
  | .str s => by simp [ofJson, Json.configurable_str]
  | .num n => by
    simp only [ofJson_num, Json.configurable_num]
    constructor
    · rintro ⟨t, i, hi, -⟩
      exact ⟨i, hi⟩
    · rintro ⟨i, hi⟩
      exact ⟨_, i, hi, rfl⟩
  | .arr items => by
    rw [Json.configurable_arr, ← exists_listOfJson_iff items, ofJson, Outcome.exists_return_iff]
  | .obj members => by
    rw [Json.configurable_obj, ← exists_entriesOfJson_iff members, ofJson,
      Outcome.exists_return_iff]

theorem exists_listOfJson_iff : (items : List Json) →
    ((∃ ts, listOfJson items = .ok ts) ↔ ∀ x ∈ items, x.Configurable)
  | [] => by simp [listOfJson]
  | x :: rest => by
    rw [List.forall_mem_cons, ← exists_ofJson_iff x, ← exists_listOfJson_iff rest, listOfJson,
      Outcome.exists_return₂_iff]

theorem exists_entriesOfJson_iff : (members : List (String × Json)) →
    ((∃ entries, entriesOfJson members = .ok entries) ↔
      ∀ e ∈ members, e.2 = .null ∨ e.2.Configurable)
  | [] => by simp [entriesOfJson]
  | (key, x) :: rest => by
    rw [List.forall_mem_cons, ← exists_entriesOfJson_iff rest]
    by_cases hx : x = .null
    · subst hx
      simp [entriesOfJson]
    · rw [or_iff_right hx, ← exists_ofJson_iff x, entriesOfJson_cons hx,
        Outcome.exists_return₂_iff]

end

mutual

/-- What was read is written again without the nulls. -/
theorem toJson_of_ofJson : (v : Json) → {t : Tree} → ofJson v = .ok t → t.toJson = v.withoutNulls
  | .null, _, h => by cases h
  | .bool _, _, h | .str _, _, h => by
    cases h
    rfl
  | .num n, t, h => by
    obtain ⟨i, ⟨rfl, hi⟩, rfl⟩ := ofJson_num.1 h
    rw [toJson, Int64.toInt_ofInt_of_le hi.1 (Int.lt_add_one_of_le hi.2)]
    rfl
  | .arr items, t, h => by
    obtain ⟨ts, hts, heq⟩ := Outcome.bind_eq_ok.1 h
    cases heq
    exact congrArg Json.arr (listToJson_of_listOfJson items hts)
  | .obj members, t, h => by
    obtain ⟨entries, hentries, heq⟩ := Outcome.bind_eq_ok.1 h
    cases heq
    exact congrArg Json.obj (entriesToJson_of_entriesOfJson members hentries)

theorem listToJson_of_listOfJson : (items : List Json) → {ts : List Tree} →
    listOfJson items = .ok ts → listToJson ts = Json.itemsWithoutNulls items
  | [], _, h => by
    cases h
    rfl
  | x :: rest, _, h => by
    obtain ⟨t, ht, h⟩ := Outcome.bind_eq_ok.1 h
    obtain ⟨ts, hts, heq⟩ := Outcome.bind_eq_ok.1 h
    cases heq
    rw [listToJson, Json.itemsWithoutNulls, toJson_of_ofJson x ht,
      listToJson_of_listOfJson rest hts]

theorem entriesToJson_of_entriesOfJson : (members : List (String × Json)) →
    {entries : List (String × Tree)} → entriesOfJson members = .ok entries →
    entriesToJson entries = Json.membersWithoutNulls members
  | [], _, h => by
    cases h
    rfl
  | (key, x) :: rest, _, h => by
    by_cases hx : x = .null
    · subst hx
      exact entriesToJson_of_entriesOfJson rest h
    · rw [entriesOfJson_cons hx] at h
      obtain ⟨t, ht, h⟩ := Outcome.bind_eq_ok.1 h
      obtain ⟨entries, hentries, heq⟩ := Outcome.bind_eq_ok.1 h
      cases heq
      rw [entriesToJson, Json.membersWithoutNulls_cons hx, toJson_of_ofJson x ht,
        entriesToJson_of_entriesOfJson rest hentries]

end

theorem toJson_ne_null (t : Tree) : t.toJson ≠ .null := by cases t <;> simp [toJson, Json.int]

theorem listOfJson_strings (items : List String) :
    listOfJson (items.map .str) = .ok (items.map str) := by
  induction items with
  | nil => rfl
  | cons s rest ih => simp [listOfJson, ofJson, ih]

mutual

/-- What was written is read again with lists for its sets. -/
theorem ofJson_toJson : (t : Tree) → t.WellFormed → ofJson t.toJson = .ok t.listed
  | .str _, _ | .bool _, _ => rfl
  | .int i, _ => by
    refine ofJson_num.2 ⟨i.toInt, ⟨rfl, i.minValue_le_toInt, i.toInt_le⟩, ?_⟩
    rw [Int64.ofInt_toInt]
    rfl
  | .set items, h => by
    rw [toJson, ofJson, listOfJson_strings, listed, sortedItems_of_pairwise h]
    rfl
  | .list items, h => by
    rw [toJson, ofJson, listOfJson_listToJson items h]
    rfl
  | .map entries, h => by
    rw [toJson, ofJson, entriesOfJson_entriesToJson entries h.2]
    rfl

theorem listOfJson_listToJson : (items : List Tree) → AllWellFormed items →
    listOfJson (listToJson items) = .ok (itemsListed items)
  | [], _ => rfl
  | t :: rest, h => by
    rw [listToJson, listOfJson, ofJson_toJson t h.1, listOfJson_listToJson rest h.2]
    rfl

theorem entriesOfJson_entriesToJson : (entries : List (String × Tree)) →
    EntriesWellFormed entries → entriesOfJson (entriesToJson entries) = .ok (entriesListed entries)
  | [], _ => rfl
  | (key, t) :: rest, h => by
    rw [entriesToJson, entriesOfJson_cons t.toJson_ne_null, ofJson_toJson t h.1,
      entriesOfJson_entriesToJson rest h.2]
    rfl

end

/-- A document can be read as a tree exactly if its numbers are integers of 64 signed bits and its
nulls are members of objects, and the tree is written as the document without its null members. A
tree that is written is read again, as itself with lists of strings in order for its sets. -/
theorem ofJson_exact :
    (∀ v : Json, (∃ t, ofJson v = .ok t) ↔ v.Configurable) ∧
    (∀ v t, ofJson v = .ok t → t.toJson = v.withoutNulls) ∧
    ∀ t : Tree, t.WellFormed → ofJson t.toJson = .ok t.listed :=
  ⟨exists_ofJson_iff, fun v _ => toJson_of_ofJson v, ofJson_toJson⟩

/-- A document with a null at the top and one further down. -/
def sparse : Json :=
  .obj [("labels", .null), ("ports", .arr [.obj [("name", .null), ("port", .int 80)]])]

def grouped : Tree := .map [("verbs", .set ["get", "list"])]

theorem ofJson_exact_sparse :
    sparse.Configurable ∧
    (∃ t, ofJson sparse = .ok t ∧ t.toJson = .obj [("ports", .arr [.obj [("port", .int 80)]])]) ∧
    grouped.WellFormed ∧
    ofJson grouped.toJson = .ok (.map [("verbs", .list [.str "get", .str "list"])]) := by
  obtain ⟨hread, hwritten, hagain⟩ := ofJson_exact
  obtain ⟨t, ht⟩ : ∃ t, ofJson sparse = .ok t := ⟨_, rfl⟩
  have hgrouped : grouped.WellFormed := by decide +kernel
  have hlisted : grouped.listed = .map [("verbs", .list [.str "get", .str "list"])] := by
    decide +kernel
  exact ⟨(hread sparse).1 ⟨t, ht⟩, ⟨t, ht, hwritten sparse t ht⟩, hgrouped,
    hlisted ▸ hagain grouped hgrouped⟩

end Tree

end DesiredState
