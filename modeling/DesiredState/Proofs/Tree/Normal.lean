import DesiredState.Proofs.Schema.Gathered
import DesiredState.Proofs.Schema.Pruned
import DesiredState.Tree.Path

/-!
Normal forms of trees.
What a tree becomes on its way through an object is laid down by two lists: the
outline of its keys, and the adjustments of a few of them. Keys that are not
listed go, and so do empty blocks. Sets are gathered, some numerals are
shortened, and some missing keys are filled in. All else stays as it is.
-/
namespace DesiredState

inductive Adjustment.Act where
  /-- A numeral of 32 bits is written in its shortest form. -/
  | shorten
  /-- A tree that stands for a missing value. -/
  | fill (t : Tree)
deriving DecidableEq, Repr

/-- The tree that is filled in. -/
def Adjustment.Act.tree? : Adjustment.Act → Option Tree
  | shorten => none
  | fill t => some t

/-- What is done at a key of all maps at a path of parents. -/
structure Adjustment where
  parents : List String
  key : String
  act : Adjustment.Act
deriving DecidableEq, Repr

/-- The keys of a tree, and what is done at some of them. -/
structure Conventions where
  rows : Outline
  adjustments : List Adjustment
deriving DecidableEq, Repr

namespace Adjustment

/-- The act on the maps at a key, where it is one. -/
def below? (key : String) (a : Adjustment) : Option Adjustment :=
  match a.parents with
  | first :: rest => if first = key then some { a with parents := rest } else none
  | [] => none

/-- Acts at a key at the top, and others on the maps in its value. -/
def around (key : String) (acts : List Act) (inside : List Adjustment) : List Adjustment :=
  acts.map (⟨[], key, ·⟩) ++ inside.map (fun a => { a with parents := key :: a.parents })

/-- What stands for a missing value of a key at the top. -/
def fill? (key : String) (a : Adjustment) : Option Tree :=
  if a.parents = [] ∧ a.key = key then a.act.tree? else none

section Around

variable (first key : String) (acts : List Act) (inside rest : List Adjustment)

theorem below?_around :
    (around first acts inside ++ rest).filterMap (below? key) =
      if first = key then inside ++ rest.filterMap (below? key)
      else rest.filterMap (below? key) := by
  have hhere : (acts.map (⟨[], first, ·⟩)).filterMap (below? key) = [] := by
    rw [List.filterMap_map, List.filterMap_eq_nil_iff]
    exact fun _ _ => rfl
  have hinside : (inside.map (fun a => { a with parents := first :: a.parents })).filterMap
      (below? key) = if first = key then inside else [] := by
    rw [List.filterMap_map]
    by_cases hkey : first = key
    · rw [if_pos hkey]
      refine (List.filterMap_congr fun a _ => ?_).trans List.filterMap_some
      simp [below?, hkey]
    · rw [if_neg hkey, List.filterMap_eq_nil_iff]
      intro a _
      simp [below?, hkey]
  rw [around, List.filterMap_append, List.filterMap_append, hhere, hinside]
  by_cases hkey : first = key <;> simp [hkey]

theorem mem_around (act : Act) :
    (⟨[], key, act⟩ : Adjustment) ∈ around first acts inside ++ rest ↔
      (first = key ∧ act ∈ acts) ∨ (⟨[], key, act⟩ : Adjustment) ∈ rest := by
  simp [around, and_comm]

theorem fill?_around :
    (around first acts inside ++ rest).findSome? (fill? key) =
      if first = key then (acts.findSome? Act.tree?).or (rest.findSome? (fill? key))
      else rest.findSome? (fill? key) := by
  have hinside : (inside.map (fun a => { a with parents := first :: a.parents })).findSome?
      (fill? key) = none := by
    rw [List.findSome?_eq_none_iff]
    simp [fill?]
  rw [around, List.findSome?_append, List.findSome?_append, hinside, List.findSome?_map]
  by_cases hkey : first = key
  · have hhere : fill? key ∘ (⟨[], first, ·⟩) = Act.tree? := by
      funext act
      simp [fill?, hkey]
    rw [hhere, if_pos hkey, Option.or_none]
  · have hhere : acts.findSome? (fill? key ∘ (⟨[], first, ·⟩)) = none := by
      rw [List.findSome?_eq_none_iff]
      simp [fill?, hkey]
    rw [hhere, if_neg hkey, Option.or_none, Option.none_or]

end Around

/-- The entries of a map with the missing ones that are known. -/
def filled (as : List Adjustment) (entries : List (String × Tree)) : List (String × Tree) :=
  as.foldr (fun a rest =>
    Entries.insert? a.key ((a.fill? a.key).map (Entries.get? entries a.key).getD) rest) entries

theorem get?_filled (as : List Adjustment) (entries : List (String × Tree)) (key : String) :
    Entries.get? (filled as entries) key =
      (Entries.get? entries key).or (as.findSome? (fill? key)) := by
  induction as with
  | nil => simp [filled]
  | cons a rest ih =>
    rw [filled, List.foldr_cons, ← filled, Entries.get?_insert?, ih, List.findSome?_cons]
    by_cases hkey : a.key = key
    · subst hkey
      cases a.fill? a.key <;> cases Entries.get? entries a.key <;> simp
    · rw [if_neg hkey, fill?, if_neg fun h => hkey h.2]

theorem sorted_filled (as : List Adjustment) {entries : List (String × Tree)}
    (h : Entries.Sorted entries) : Entries.Sorted (filled as entries) := by
  induction as with
  | nil => exact h
  | cons a rest ih => exact Entries.sorted_insert? _ _ ih

end Adjustment

/-- What is laid down for one key of a map. -/
structure Provision where
  /-- The form of the value, if the key is listed. -/
  form? : Option Outline.Form
  /-- What is laid down for the maps in the value. -/
  inside : Conventions
  shortens : Bool
  /-- The tree that stands for a missing value. -/
  fill? : Option Tree
deriving DecidableEq, Repr

def Conventions.provision (c : Conventions) (key : String) : Provision where
  form? := c.rows.form? key
  inside := ⟨c.rows.below key, c.adjustments.filterMap (Adjustment.below? key)⟩
  shortens := ⟨[], key, .shorten⟩ ∈ c.adjustments
  fill? := c.adjustments.findSome? (Adjustment.fill? key)

/-- Only the first row and its acts are about its key and the maps in its value. -/
theorem Conventions.provision_around {r : Outline.Row} (hr : r.parents = [])
    (acts : List Adjustment.Act) (inside rest : Conventions) (key : String) :
    Conventions.provision ⟨r.around inside.rows ++ rest.rows,
      Adjustment.around r.key acts inside.adjustments ++ rest.adjustments⟩ key =
    if r.key = key then
      { form? := some r.form
        inside := ⟨inside.rows ++ (rest.provision key).inside.rows,
          inside.adjustments ++ (rest.provision key).inside.adjustments⟩
        shortens := decide (.shorten ∈ acts) || (rest.provision key).shortens
        fill? := (acts.findSome? Adjustment.Act.tree?).or (rest.provision key).fill? }
    else rest.provision key := by
  unfold provision
  simp only [Outline.form?_around hr, Outline.below_around hr, Adjustment.below?_around,
    Adjustment.mem_around, Adjustment.fill?_around]
  by_cases hkey : r.key = key <;> simp [hkey]

namespace Tree

/-- A list of strings as a set. -/
def gathered : Tree → Tree
  | list items => setOf (items.filterMap asString?)
  | t => t

/-- A numeral of 32 bits in its shortest form. -/
def shortened : Tree → Tree
  | str s => str (match Text.int32? s with
    | some i => toString i.toInt
    | none => s)
  | t => t

end Tree

/-- What becomes of a value, which is given once more with its maps in normal form. -/
def Provision.kept? (p : Provision) (t inside : Tree) : Option Tree :=
  match p.form? with
  | none => none
  | some .block => if t = .list [] then none else some inside
  | some .maps => some inside
  | some .stringSet => some t.gathered
  | some .string => some (if p.shortens then t.shortened else t)
  | some .int | some .int32 | some .flag | some .strings | some .stringMap => some t

namespace Tree

mutual

/-- The normal form of a tree. -/
def normal : Tree → Conventions → Tree
  | map entries, c => map (Adjustment.filled c.adjustments (normalEntries entries c))
  | list items, c => list (normalItems items c)
  | t, _ => t

def normalItems : List Tree → Conventions → List Tree
  | [], _ => []
  | t :: rest, c => t.normal c :: normalItems rest c

def normalEntries : List (String × Tree) → Conventions → List (String × Tree)
  | [], _ => []
  | (key, t) :: rest, c =>
    let p := c.provision key
    Entries.insert? key (p.kept? t (t.normal p.inside)) (normalEntries rest c)

end

/-- The entries of a map in normal form. -/
def normalMap (entries : List (String × Tree)) (c : Conventions) : List (String × Tree) :=
  Adjustment.filled c.adjustments (normalEntries entries c)

theorem normalItems_eq (items : List Tree) (c : Conventions) :
    normalItems items c = items.map (·.normal c) := by
  induction items with
  | nil => rfl
  | cons t rest ih => rw [normalItems, ih, List.map_cons]

theorem sorted_normalEntries (entries : List (String × Tree)) (c : Conventions) :
    Entries.Sorted (normalEntries entries c) := by
  induction entries with
  | nil => exact Entries.sorted_nil
  | cons e rest ih =>
    rw [normalEntries]
    exact Entries.sorted_insert? _ _ ih

theorem sorted_normalMap (entries : List (String × Tree)) (c : Conventions) :
    Entries.Sorted (normalMap entries c) :=
  Adjustment.sorted_filled _ (sorted_normalEntries entries c)

theorem get?_normalEntries {entries : List (String × Tree)} (h : Entries.Sorted entries)
    (c : Conventions) (key : String) :
    Entries.get? (normalEntries entries c) key = (Entries.get? entries key).bind
      (fun t => (c.provision key).kept? t (t.normal (c.provision key).inside)) := by
  induction entries with
  | nil => rfl
  | cons e rest ih =>
    obtain ⟨first, t⟩ := e
    rw [normalEntries, Entries.get?_insert?, ih h.tail, Entries.get?_cons]
    by_cases hkey : first = key
    · subst hkey
      rw [if_pos rfl, if_pos rfl, h.get?_rest (String.lt_irrefl first), Option.bind_none,
        Option.or_none, Option.bind_some]
    · rw [if_neg hkey, if_neg hkey]

end Tree

/-- What a map in normal form has at a key, from what it had there before. -/
def Provision.value? (p : Provision) (given : Option Tree) : Option Tree :=
  (given.bind (fun t => p.kept? t (t.normal p.inside))).or p.fill?

namespace Tree

theorem get?_normalMap {entries : List (String × Tree)} (h : Entries.Sorted entries)
    (c : Conventions) (key : String) :
    Entries.get? (normalMap entries c) key =
      (c.provision key).value? (Entries.get? entries key) := by
  rw [normalMap, Adjustment.get?_filled, get?_normalEntries h]
  rfl

/-- A map in a tree, at a path and at the keys on the path. -/
inductive MapAt : Tree → List String → List String → List (String × Tree) → Prop
  | here {entries : List (String × Tree)} : MapAt (map entries) [] [] entries
  | inside {entries m : List (String × Tree)} {items : List Tree} {t : Tree} {key segment : String}
      {i : Nat} {parents path : List String}
      (hkey : Entries.get? entries key = some (list items))
      (hsegment : Text.nat64? segment = some i) (hitem : items[i]? = some t)
      (h : MapAt t parents path m) :
      MapAt (map entries) (key :: parents) (key :: segment :: path) m

theorem MapAt.mem_mapsAt {t : Tree} {parents path : List String}
    {m : List (String × Tree)} (h : t.MapAt parents path m) : m ∈ t.mapsAt parents := by
  induction h with
  | here => exact List.mem_singleton_self _
  | inside hkey hsegment hitem _ ih =>
    rw [mapsAt, hkey]
    exact List.mem_flatMap.2 ⟨_, List.mem_of_getElem? hitem, ih⟩

theorem MapAt.wellFormed {t : Tree} {parents path : List String}
    {m : List (String × Tree)} (h : t.MapAt parents path m) (ht : t.WellFormed) :
    (map m).WellFormed := by
  induction h with
  | here => exact ht
  | inside hkey hsegment hitem _ ih =>
    have hitems := wellFormed_of_get? ht hkey
    exact ih (allWellFormed_iff.1 hitems _ (List.mem_of_getElem? hitem))

end Tree

/-- The conventions for the maps at a path of keys, each of which is listed with maps. -/
def Conventions.along? (c : Conventions) : List String → Option Conventions
  | [] => some c
  | key :: rest =>
    let p := c.provision key
    if p.form?.any Outline.Form.isNested then p.inside.along? rest else none

namespace Tree

/-- A value with maps in it is kept with the normal forms of the maps, if it is no empty block. -/
theorem kept?_list_of_nested {p : Provision} (h : p.form?.any Outline.Form.isNested)
    {items : List Tree} (hitems : items ≠ []) (inside : Tree) :
    p.kept? (list items) inside = some inside := by
  unfold Provision.kept?
  cases hform : p.form? with
  | none => simp [hform] at h
  | some form => cases form <;> simp_all [Outline.Form.isNested]

/-- The normal form has the normal forms of the maps where the maps were. -/
theorem walk?_normal {t : Tree} {parents path : List String} {m : List (String × Tree)}
    (h : t.MapAt parents path m) (ht : t.WellFormed) {c d : Conventions}
    (hd : c.along? parents = some d) :
    (t.normal c).walk? path = some (.map (normalMap m d)) := by
  induction h generalizing c with
  | here =>
    cases hd
    rfl
  | @inside entries m items t key segment i parents path hkey hsegment hitem h ih =>
    rw [Conventions.along?] at hd
    split at hd
    · rename_i hnested
      have hitems : items ≠ [] := by
        rintro rfl
        simp at hitem
      have hvalue : Entries.get? (normalMap entries c) key =
          some ((list items).normal (c.provision key).inside) := by
        rw [get?_normalMap ht.1, hkey, Provision.value?, Option.bind_some,
          kept?_list_of_nested hnested hitems, Option.some_or]
      have hthere := ih (allWellFormed_iff.1 (wellFormed_of_get? ht hkey) _
        (List.mem_of_getElem? hitem)) hd
      change (Entries.get? (normalMap entries c) key).bind (walk? (segment :: path)) = _
      rw [hvalue, Option.bind_some, normal, normalItems_eq, walk?, step?, hsegment,
        Option.bind_some, List.getElem?_map, hitem]
      exact hthere
    · cases hd

/-- What is a set already, or a list of strings, is gathered. -/
theorem gathers_gathered {t : Tree} (ht : t.WellFormed)
    (h : Outline.Form.stringSet.takes t = true) : t.gathered.Gathers t := by
  obtain ⟨texts, htexts⟩ := (Schema.Leaf.exists_expand_iff .textSet [] t).2 h
  have hsame : Schema.Leaf.textSet.canonical t = t.gathered := by cases t <;> rfl
  exact hsame ▸ Schema.Leaf.gathers_canonical ht htexts

end Tree

end DesiredState
