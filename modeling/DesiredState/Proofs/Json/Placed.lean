import DesiredState.Proofs.Json.Revised

/-!
One place of a document written.
What a path leads to is written or taken away, and nothing else is touched; a
path that leads nowhere writes nothing. Places that lie apart can be written in
any order, and changing the value at a path writes this place.
-/
namespace DesiredState

namespace Entries

variable {α : Type}

/-- A key is written, or removed without a value. -/
def set (key : String) (value? : Option α) (entries : List (String × α)) : List (String × α) :=
  match value? with
  | some v => insert key v entries
  | none => erase key entries

theorem get?_set (key other : String) (value? : Option α) (entries : List (String × α)) :
    get? (set key value? entries) other = if key = other then value? else get? entries other := by
  cases value? with
  | some v => exact get?_insert key other v entries
  | none => exact get?_erase key other entries

theorem sorted_set (key : String) (value? : Option α) {entries : List (String × α)}
    (h : Sorted entries) : Sorted (set key value? entries) := by
  cases value? with
  | some v => exact sorted_insert key v h
  | none => exact sorted_erase key h

variable {key other : String} {entries : List (String × α)}

theorem set_comm (hne : key ≠ other) (x y : Option α) (h : Sorted entries) :
    set key x (set other y entries) = set other y (set key x entries) := by
  refine ext_of_sorted (sorted_set _ _ (sorted_set _ _ h)) (sorted_set _ _ (sorted_set _ _ h))
    fun k => ?_
  simp only [get?_set]
  by_cases hkey : key = k
  · subst hkey
    simp [hne.symm]
  · simp [hkey]

theorem set_set (x y : Option α) (h : Sorted entries) :
    set key x (set key y entries) = set key x entries := by
  refine ext_of_sorted (sorted_set _ _ (sorted_set _ _ h)) (sorted_set _ _ h) fun k => ?_
  simp only [get?_set]
  split <;> rfl

theorem set_get? (h : Sorted entries) : set key (get? entries key) entries = entries := by
  refine ext_of_sorted (sorted_set _ _ h) h fun k => ?_
  rw [get?_set]
  split
  · rename_i heq
    rw [heq]
  · rfl

end Entries

namespace Json

/-- What a token selects is written, or taken away if it is a member. -/
def setChild (token : String) (x : Option Json) : Json → Json
  | obj members => obj (Entries.set token x members)
  | arr items =>
    match Pointer.index? token, x with
    | some i, some y => arr (items.set i y)
    | _, _ => arr items
  | v => v

/-- What is there with a value, or none, at a path. -/
def place : List String → Option Json → Option Json → Option Json
  | [], x, _ => x
  | token :: rest, x, v? => v?.map fun v => v.setChild token (place rest x (v.step? token))

variable {v w c : Json} {token other : String} {path first second : List String}

theorem setChild_obj (members : List (String × Json)) (x : Option Json) :
    (obj members).setChild token x = obj (Entries.set token x members) := rfl

theorem setChild_arr_of_index? (h : Pointer.index? token = none) (items : List Json)
    (x : Option Json) : (arr items).setChild token x = arr items := by
  change (match Pointer.index? token, x with
    | some i, some y => arr (items.set i y)
    | _, _ => arr items) = arr items
  rw [h]

theorem setChild_arr_none (items : List Json) : (arr items).setChild token none = arr items := by
  cases h : Pointer.index? token with
  | none => exact setChild_arr_of_index? h items none
  | some i =>
    change (match Pointer.index? token, (none : Option Json) with
      | some i, some y => arr (items.set i y)
      | _, _ => arr items) = arr items
    rw [h]

theorem setChild_arr_some {i : Nat} (h : Pointer.index? token = some i) (items : List Json)
    (y : Json) : (arr items).setChild token (some y) = arr (items.set i y) := by
  change (match Pointer.index? token, some y with
    | some i, some y => arr (items.set i y)
    | _, _ => arr items) = arr (items.set i y)
  rw [h]

/-- Either nothing is written to any array, or one value at one index of every array. -/
theorem setChild_arr (token : String) (x : Option Json) :
    (∀ items, (arr items).setChild token x = arr items) ∨
      ∃ i y, Pointer.index? token = some i ∧ x = some y ∧
        ∀ items, (arr items).setChild token x = arr (items.set i y) := by
  cases x with
  | none => exact Or.inl setChild_arr_none
  | some y =>
    cases h : Pointer.index? token with
    | none => exact Or.inl fun items => setChild_arr_of_index? h items (some y)
    | some i => exact Or.inr ⟨i, y, rfl, rfl, fun items => setChild_arr_some h items y⟩

theorem step?_setChild_of_ne (hne : other ≠ token) (x : Option Json) :
    (v.setChild token x).step? other = v.step? other := by
  cases v with
  | obj members =>
    change Entries.get? (Entries.set token x members) other = Entries.get? members other
    rw [Entries.get?_set, if_neg hne.symm]
  | arr items =>
    rcases setChild_arr token x with hnone | ⟨i, y, hi, -, hset⟩
    · rw [hnone]
    · rw [hset]
      exact Patch.step?_set hi y hne
  | _ => rfl

theorem step?_setChild_some (hc : v.step? token = some c) (y : Json) :
    (v.setChild token (some y)).step? token = some y := by
  cases v with
  | obj members =>
    change Entries.get? (Entries.set token (some y) members) token = some y
    rw [Entries.get?_set, if_pos rfl]
  | arr items =>
    obtain ⟨i, hi, hitem⟩ := Option.bind_eq_some_iff.1 hc
    have hlt : i < items.length := (List.getElem?_eq_some_iff.1 hitem).1
    rw [setChild_arr_some hi]
    simp [step?, hi, hlt]
  | _ => cases hc

theorem setChild_comm (hv : v.WellFormed) (hne : token ≠ other) (x y : Option Json) :
    (v.setChild other y).setChild token x = (v.setChild token x).setChild other y := by
  cases v with
  | obj members => exact congrArg obj (Entries.set_comm hne x y hv.1)
  | arr items =>
    rcases setChild_arr token x with htoken | ⟨i, a, hi, -, htoken⟩
    · rcases setChild_arr other y with hother | ⟨j, b, -, -, hother⟩ <;>
        simp only [htoken, hother]
    · rcases setChild_arr other y with hother | ⟨j, b, hj, -, hother⟩
      · simp only [htoken, hother]
      · have hij : i ≠ j := by
          rintro rfl
          exact hne ((Pointer.eq_repr_of_index? hi).trans (Pointer.eq_repr_of_index? hj).symm)
        simp only [htoken, hother, List.set_comm _ _ hij]
  | _ => rfl

theorem setChild_setChild (hv : v.WellFormed) (x y : Json) :
    (v.setChild token (some y)).setChild token (some x) = v.setChild token (some x) := by
  cases v with
  | obj members => exact congrArg obj (Entries.set_set _ _ hv.1)
  | arr items =>
    cases hi : Pointer.index? token with
    | none => simp only [setChild_arr_of_index? hi]
    | some i => simp only [setChild_arr_some hi, List.set_set]
  | _ => rfl

/-- Where a token selects nothing there is nothing to take away. -/
theorem setChild_none (hv : v.WellFormed) (h : v.step? token = none) :
    v.setChild token none = v := by
  cases v with
  | obj members =>
    have hget : Entries.get? members token = none := h
    have hsame : Entries.set token (Entries.get? members token) members = members :=
      Entries.set_get? hv.1
    rw [hget] at hsame
    exact congrArg obj hsame
  | arr items => exact setChild_arr_none items
  | _ => rfl

theorem WellFormed.setChild (hv : v.WellFormed) {x : Option Json}
    (hx : ∀ y, x = some y → y.WellFormed) : (v.setChild token x).WellFormed := by
  cases v with
  | obj members =>
    refine ⟨Entries.sorted_set _ _ hv.1, membersWellFormed_iff.2 fun e he => ?_⟩
    have hget := Entries.get?_of_mem (Entries.sorted_set token x hv.1) he
    rw [Entries.get?_set] at hget
    split at hget
    · exact hx _ hget
    · exact membersWellFormed_iff.1 hv.2 _ (Entries.mem_of_get? hget)
  | arr items =>
    rcases setChild_arr token x with hnone | ⟨i, y, -, hy, hset⟩
    · rw [hnone]
      exact hv
    · rw [hset]
      refine allWellFormed_iff.2 fun u hu => ?_
      rcases List.mem_or_eq_of_mem_set hu with hu | rfl
      · exact allWellFormed_iff.1 hv u hu
      · exact hx _ hy
  | _ => exact hv

theorem place_none (hpath : path ≠ []) (x : Option Json) : place path x none = none := by
  cases path with
  | nil => exact absurd rfl hpath
  | cons token rest => rfl

theorem exists_place (hpath : path ≠ []) (x : Option Json) (v : Json) :
    ∃ w, place path x (some v) = some w := by
  cases path with
  | nil => exact absurd rfl hpath
  | cons token rest => exact ⟨_, rfl⟩

theorem WellFormed.place (hv : v.WellFormed) {x : Option Json}
    (hx : ∀ y, x = some y → y.WellFormed) (h : place path x (some v) = some w) :
    w.WellFormed := by
  induction path generalizing v w with
  | nil => exact hx w h
  | cons token rest ih =>
    cases h
    refine hv.setChild fun y hy => ?_
    cases hc : v.step? token with
    | none =>
      rw [hc] at hy
      cases rest with
      | nil => exact hx y hy
      | cons => cases hy
    | some c =>
      rw [hc] at hy
      exact ih (hv.step? hc) hy

/-- Places that lie apart may be written in any order. -/
theorem place_comm (h : Apart first second) (hv : v.WellFormed) (x y : Option Json) :
    place first x (place second y (some v)) = place second y (place first x (some v)) := by
  induction first generalizing second v with
  | nil => exact absurd List.nil_prefix h.1
  | cons token first ih =>
    cases second with
    | nil => exact absurd List.nil_prefix h.2
    | cons other second =>
      simp only [place, Option.map_some, Option.some.injEq]
      by_cases htoken : token = other
      · subst htoken
        have hbelow : Apart first second :=
          Apart.of_append (show Apart ([token] ++ first) ([token] ++ second) from h)
        have hfirst : first ≠ [] := by
          rintro rfl
          exact hbelow.1 List.nil_prefix
        have hsecond : second ≠ [] := by
          rintro rfl
          exact hbelow.2 List.nil_prefix
        cases hc : v.step? token with
        | none =>
          rw [place_none hfirst, place_none hsecond, setChild_none hv hc, hc, place_none hfirst,
            place_none hsecond]
        | some c =>
          obtain ⟨a, ha⟩ := exists_place hfirst x c
          obtain ⟨b, hb⟩ := exists_place hsecond y c
          have hboth := ih hbelow (hv.step? hc)
          rw [ha, hb] at hboth ⊢
          rw [step?_setChild_some hc, step?_setChild_some hc, hboth]
          obtain ⟨d, hd⟩ := exists_place hsecond y a
          rw [hd, setChild_setChild hv, setChild_setChild hv]
      · rw [step?_setChild_of_ne htoken, step?_setChild_of_ne (Ne.symm htoken),
          setChild_comm hv htoken]

/-- Writing below a value that is there. -/
theorem place_append {x : Option Json} {parents : List String}
    (hc : resolve? parents v = some c) :
    place (parents ++ path) x (some v) = place parents (place path x (some c)) (some v) := by
  induction parents generalizing v with
  | nil =>
    cases hc
    rfl
  | cons token parents ih =>
    obtain ⟨b, hb, hrest⟩ := Option.bind_eq_some_iff.1 hc
    simp only [List.cons_append, place, Option.map_some, hb, ih hrest]

end Json

namespace Patch

open Json (place resolve?)

variable {change : Json → Option Json} {v x y : Json} {path : List String}

/-- A change that succeeds on the value at a path writes what it makes of it. -/
theorem changeAt_eq_place (hx : resolve? path v = some x) (hy : change x = some y) :
    changeAt change path v = place path (some y) (some v) := by
  induction path generalizing v with
  | nil =>
    cases hx
    exact hy
  | cons token rest ih =>
    obtain ⟨c, hc, hrest⟩ := Option.bind_eq_some_iff.1 hx
    have hbelow := ih hrest
    obtain ⟨d, hd, -⟩ := changeAt_eq_some hrest hy
    rw [hd] at hbelow
    simp only [changeAt, place, Option.map_some, hc, ← hbelow]
    cases v with
    | obj members =>
      have hget : Entries.get? members token = some c := hc
      simp [changeChild, hget, hd, Json.setChild_obj, Entries.set]
    | arr items =>
      obtain ⟨i, hi, hitem⟩ := Option.bind_eq_some_iff.1 hc
      simp [changeChild, hi, hitem, hd, Json.setChild_arr_some hi]
    | _ => cases hc

end Patch

end DesiredState
